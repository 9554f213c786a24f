import DbtNova.ColumnMatching
import Mathlib.Data.List.Nodup

/-!
# Matches and the order of the aliases

The matches of one column are told by a fold over the candidates for it. The aliases all
offer a column with the same score, so the first one they offer it for decides what is
recorded, and nothing else depends on their order.
-/
namespace DbtNova.ColumnMatching
open Text

section Recorded
variable {K : Type*} {best : List (ColumnMatch K)} {col : String}

def matchFor (best : List (ColumnMatch K)) (col : String) : Option (ColumnMatch K) :=
  best.find? fun existing => existing.columnName == col

theorem matchFor_column {m : ColumnMatch K} (h : matchFor best col = some m) :
    m.columnName = col :=
  beq_iff_eq.mp (List.find?_some (p := fun existing : ColumnMatch K => existing.columnName == col) h)

theorem mem_iff_matchFor (h : (best.map ColumnMatch.columnName).Nodup) {m : ColumnMatch K} :
    m ∈ best ↔ matchFor best m.columnName = some m := by
  constructor
  · intro hm
    cases hfound : matchFor best m.columnName with
    | none => exact absurd (beq_self_eq_true _) (List.find?_eq_none.mp hfound m hm)
    | some m' =>
        have hsame := List.inj_on_of_nodup_map h (List.mem_of_find?_eq_some hfound) hm
          (matchFor_column hfound)
        rw [hsame]
  · exact List.mem_of_find?_eq_some

end Recorded

section Record
variable {K : Type*} [Field K] [LinearOrder K] {best : List (ColumnMatch K)} {col : String}

/-- What `record_match` leaves for the column of the candidate. -/
def better (recorded : Option (ColumnMatch K)) (c : Candidate K) : Option (ColumnMatch K) :=
  match recorded with
  | some existing => if existing.score < c.entry.score then some c.entry else some existing
  | none => some c.entry

theorem matchFor_recordMatch (best : List (ColumnMatch K)) (c : Candidate K) (col : String) :
    matchFor (recordMatch best c) col =
      if c.column = col then better (matchFor best col) c else matchFor best col := by
  unfold recordMatch
  change matchFor (match matchFor best c.column with
    | some existing => _
    | none => _) col = _
  cases hfound : matchFor best c.column with
  | none =>
      dsimp only
      unfold matchFor at hfound ⊢
      rw [List.find?_append]
      by_cases hcol : c.column = col
      · rw [if_pos hcol, ← hcol, hfound, Option.none_or]
        exact List.find?_cons_of_pos (beq_self_eq_true _)
      · rw [if_neg hcol]
        have hother : List.find? (fun existing => existing.columnName == col) [c.entry] = none :=
          List.find?_cons_of_neg (fun h => hcol (beq_iff_eq.mp h))
        rw [hother, Option.or_none]
  | some existing =>
      dsimp only
      split
      · rename_i hbetter
        have hmap : matchFor (best.map fun other =>
            if other.columnName = c.column then c.entry else other) col =
            (matchFor best col).map fun other =>
              if other.columnName = c.column then c.entry else other := by
          unfold matchFor
          rw [List.find?_map]
          congr 2
          funext other
          dsimp only [Function.comp_apply]
          split
          · rename_i hsame
            rw [hsame]
            rfl
          · rfl
        rw [hmap]
        by_cases hcol : c.column = col
        · rw [if_pos hcol, ← hcol, hfound, Option.map_some, if_pos (matchFor_column hfound)]
          unfold better
          exact (if_pos hbetter).symm
        · rw [if_neg hcol]
          cases hother : matchFor best col with
          | none => rfl
          | some other =>
              rw [Option.map_some, if_neg]
              rw [matchFor_column hother]
              exact fun heq => hcol heq.symm
      · rename_i hworse
        by_cases hcol : c.column = col
        · rw [if_pos hcol, ← hcol, hfound]
          unfold better
          exact (if_neg hworse).symm
        · rw [if_neg hcol]

theorem matchFor_foldl (candidates : List (Candidate K)) (best : List (ColumnMatch K))
    (col : String) : matchFor (candidates.foldl recordMatch best) col =
      (candidates.filter fun c => c.column == col).foldl better (matchFor best col) := by
  induction candidates generalizing best with
  | nil => rfl
  | cons c candidates ih =>
      rw [List.foldl_cons, ih, matchFor_recordMatch]
      by_cases hcol : c.column = col
      · rw [if_pos hcol, List.filter_cons_of_pos (p := fun c : Candidate K => c.column == col)
          (beq_iff_eq.mpr hcol), List.foldl_cons]
      · rw [if_neg hcol, List.filter_cons_of_neg (p := fun c : Candidate K => c.column == col)
          (fun h => hcol (beq_iff_eq.mp h))]

theorem recordMatch_columns (best : List (ColumnMatch K)) (c : Candidate K)
    (h : (best.map ColumnMatch.columnName).Nodup) :
    ((recordMatch best c).map ColumnMatch.columnName).Nodup := by
  unfold recordMatch
  split
  · split
    · have hsame : (best.map fun other =>
          if other.columnName = c.column then c.entry else other).map ColumnMatch.columnName =
            best.map ColumnMatch.columnName := by
        rw [List.map_map]
        apply List.map_congr_left
        intro other _
        dsimp only [Function.comp_apply]
        split
        · rename_i hcol
          exact hcol.symm
        · rfl
      rw [hsame]
      exact h
    · exact h
  · rename_i hnone
    rw [List.map_append, List.nodup_append]
    refine ⟨h, List.nodup_singleton _, ?_⟩
    intro name hname other hother heq
    obtain ⟨m, hm, rfl⟩ := List.mem_map.mp hname
    rw [List.map_singleton, List.mem_singleton] at hother
    have hnot := List.find?_eq_none.mp hnone m hm
    exact hnot (beq_iff_eq.mpr (heq.trans hother))

theorem foldl_columns (candidates : List (Candidate K)) {best : List (ColumnMatch K)}
    (h : (best.map ColumnMatch.columnName).Nodup) :
    ((candidates.foldl recordMatch best).map ColumnMatch.columnName).Nodup := by
  induction candidates generalizing best with
  | nil => exact h
  | cons c candidates ih => exact ih (recordMatch_columns best c h)

/-! ## Candidates of one score -/

theorem better_of_le {recorded : Option (ColumnMatch K)} {c : Candidate K} {m : ColumnMatch K}
    (h : recorded = some m) (hle : c.entry.score ≤ m.score) : better recorded c = recorded := by
  rw [h]
  unfold better
  exact if_neg (not_lt.mpr hle)

theorem exists_better (recorded : Option (ColumnMatch K)) (c : Candidate K) :
    ∃ m, better recorded c = some m ∧ c.entry.score ≤ m.score ∧
      (m = c.entry ∨ recorded = some m) := by
  unfold better
  split
  · rename_i existing
    split
    · exact ⟨_, rfl, le_rfl, Or.inl rfl⟩
    · rename_i hworse
      exact ⟨_, rfl, not_lt.mp hworse, Or.inr rfl⟩
  · exact ⟨_, rfl, le_rfl, Or.inl rfl⟩

/-- Of candidates with the same score the first one counts. -/
theorem foldl_better_same (recorded : Option (ColumnMatch K)) (c : Candidate K)
    (candidates : List (Candidate K)) (h : ∀ d ∈ candidates, d.entry.score = c.entry.score) :
    (c :: candidates).foldl better recorded = better recorded c := by
  rw [List.foldl_cons]
  obtain ⟨m, hm, hle, -⟩ := exists_better recorded c
  rw [hm]
  induction candidates with
  | nil => rfl
  | cons d candidates ih =>
      rw [List.forall_mem_cons] at h
      rw [List.foldl_cons, better_of_le rfl (h.1.trans_le hle)]
      exact ih h.2

theorem foldl_better_source {candidates : List (Candidate K)} {recorded : Option (ColumnMatch K)}
    {m : ColumnMatch K} (h : candidates.foldl better recorded = some m) :
    recorded = some m ∨ ∃ c ∈ candidates, m = c.entry := by
  induction candidates generalizing recorded with
  | nil => exact Or.inl h
  | cons c candidates ih =>
      cases ih h with
      | inr hlater =>
          obtain ⟨d, hd, heq⟩ := hlater
          exact Or.inr ⟨d, List.mem_cons_of_mem c hd, heq⟩
      | inl hfirst =>
          obtain ⟨m', hm', -, hsource⟩ := exists_better recorded c
          rw [hfirst] at hm'
          cases hm'
          cases hsource with
          | inl heq => exact Or.inr ⟨c, List.mem_cons_self, heq⟩
          | inr hkept => exact Or.inl hkept

/-- Two records of the same score stay, or both give way. -/
theorem foldl_better_alike {m m' : ColumnMatch K} (hscore : m.score = m'.score)
    (candidates : List (Candidate K)) :
    candidates.foldl better (some m) = candidates.foldl better (some m') ∨
      (candidates.foldl better (some m) = some m ∧
        candidates.foldl better (some m') = some m') := by
  induction candidates with
  | nil => exact Or.inr ⟨rfl, rfl⟩
  | cons c candidates ih =>
      rw [List.foldl_cons, List.foldl_cons]
      by_cases hbetter : m.score < c.entry.score
      · apply Or.inl
        have hm : better (some m) c = some c.entry := if_pos hbetter
        have hm' : better (some m') c = some c.entry := if_pos (hscore ▸ hbetter)
        rw [hm, hm']
      · have hle : c.entry.score ≤ m.score := not_lt.mp hbetter
        rw [better_of_le rfl hle, better_of_le rfl (hscore ▸ hle)]
        exact ih

end Record

/-! ## The candidates of a call -/

section Offers
variable {K : Type*} [Field K] {out : Surroundings} {config : ColumnLineageConfig K}
  {input : MatchInput} {order : IterationOrder K} {c : Candidate K}

theorem exactMatch_reason (h : c ∈ exactMatch out config input) : c.reason = "exact_match" := by
  unfold exactMatch at h
  dsimp only at h
  split at h
  · obtain ⟨col, -, rfl⟩ := List.mem_map.mp h
    rfl
  · exact absurd h List.not_mem_nil

theorem sqlNestedField_reason (h : c ∈ sqlNestedField out config input) :
    c.reason = "sql_nested_field" := by
  unfold sqlNestedField at h
  dsimp only at h
  split at h
  · exact absurd h List.not_mem_nil
  · cases List.mem_append.mp h with
    | inl htarget =>
        obtain ⟨col, -, hoffer⟩ := List.mem_filterMap.mp htarget
        obtain ⟨targetMeta, -, hoffer⟩ := Option.bind_eq_some_iff.mp hoffer
        split at hoffer
        · obtain ⟨details, -, rfl⟩ := Option.map_eq_some_iff.mp hoffer
          rfl
        · contradiction
    | inr hsource =>
        split at hsource
        · obtain ⟨col, -, hoffer⟩ := List.mem_filterMap.mp hsource
          obtain ⟨details, -, rfl⟩ := Option.map_eq_some_iff.mp hoffer
          rfl
        · exact absurd hsource List.not_mem_nil

theorem affixMatch_reason {strat : MatchingStrategy K} {reason : String}
    {isAffix : String → String → Bool}
    (h : c ∈ affixMatch out config input strat reason isAffix) : c.reason = reason := by
  unfold affixMatch at h
  dsimp only at h
  split at h
  · obtain ⟨col, -, rfl⟩ := List.mem_map.mp h
    rfl
  · exact absurd h List.not_mem_nil

theorem normalizedMatch_reason (h : c ∈ normalizedMatch out config input) :
    c.reason = "normalized_match" := by
  unfold normalizedMatch at h
  dsimp only at h
  split at h
  · obtain ⟨col, -, rfl⟩ := List.mem_map.mp h
    rfl
  · exact absurd h List.not_mem_nil

theorem directSelect_reason (h : c ∈ directSelect out config input) :
    c.reason = "direct_select" := by
  unfold directSelect at h
  dsimp only at h
  split at h
  · split at h
    · exact absurd h List.not_mem_nil
    · split at h
      · rw [List.mem_singleton.mp h]
        rfl
      · exact absurd h List.not_mem_nil
  · exact absurd h List.not_mem_nil

theorem mem_aliasOffers {aliases : List (String × String)} :
    c ∈ aliasOffers out config input aliases ↔
      ∃ entry ∈ aliases, c.column ∈ input.targetColumns ∧
        aliasDetails out input c.column entry = some c.details ∧
        c = config.matching.sqlAlias.offer "sql_alias" (9 / 10) c.details c.column := by
  unfold aliasOffers
  rw [List.mem_flatMap]
  constructor
  · intro h
    obtain ⟨entry, hentry, hc⟩ := h
    obtain ⟨col, hcol, hoffer⟩ := List.mem_filterMap.mp hc
    obtain ⟨details, hdetails, rfl⟩ := Option.map_eq_some_iff.mp hoffer
    exact ⟨entry, hentry, hcol, hdetails, rfl⟩
  · intro h
    obtain ⟨entry, hentry, hcol, hdetails, heq⟩ := h
    refine ⟨entry, hentry, List.mem_filterMap.mpr ⟨c.column, hcol, ?_⟩⟩
    rw [hdetails, Option.map_some]
    exact congrArg some heq.symm

/-- What the aliases offer for a column, in their order. -/
def aliasBlock (out : Surroundings) (config : ColumnLineageConfig K) (input : MatchInput)
    (order : IterationOrder K) (col : String) : List (Candidate K) :=
  (sqlAlias out config input order).filter fun c => c.column == col

theorem mem_aliasBlock {col : String} (h : c ∈ aliasBlock out config input order col) :
    c.column = col ∧ c = config.matching.sqlAlias.offer "sql_alias" (9 / 10) c.details col ∧
      ∃ aliases, aliasMap out input = some aliases ∧ ∃ entry ∈ aliases.entries,
        aliasDetails out input col entry = some c.details := by
  obtain ⟨hmem, hcol⟩ := List.mem_filter.mp h
  have hcol := beq_iff_eq.mp hcol
  unfold sqlAlias at hmem
  split at hmem
  · cases haliases : aliasMap out input with
    | none =>
        rw [haliases] at hmem
        exact absurd hmem List.not_mem_nil
    | some aliases =>
        rw [haliases] at hmem
        obtain ⟨entry, hentry, -, hdetails, heq⟩ := mem_aliasOffers.mp hmem
        rw [hcol] at hdetails heq
        exact ⟨hcol, heq, aliases, rfl, entry, (order.aliases_perm aliases).mem_iff.mp hentry,
          hdetails⟩
  · exact absurd hmem List.not_mem_nil

theorem aliasBlock_perm (out : Surroundings) (config : ColumnLineageConfig K) (input : MatchInput)
    (order order' : IterationOrder K) (col : String) :
    (aliasBlock out config input order col).Perm (aliasBlock out config input order' col) := by
  apply List.Perm.filter
  unfold sqlAlias
  split
  · cases aliasMap out input with
    | none => exact List.Perm.refl _
    | some aliases =>
        exact List.Perm.flatMap_right _
          ((order.aliases_perm aliases).trans (order'.aliases_perm aliases).symm)
  · exact List.Perm.refl _

theorem aliasBlock_score {col : String} {d : Candidate K}
    (hc : c ∈ aliasBlock out config input order col)
    (hd : d ∈ aliasBlock out config input order col) : d.entry.score = c.entry.score := by
  rw [(mem_aliasBlock hc).2.1, (mem_aliasBlock hd).2.1]
  rfl

/-- The alias that comes first decides what the block of its column starts with. -/
theorem aliasBlock_first {col : String} {aliases : AliasMap} {entry : String × String}
    {rest : List (String × String)} {details : List (String × Detail K)}
    (haliases : aliasMap out input = some aliases)
    (hfirst : order.aliases aliases = entry :: rest)
    (hdetails : aliasDetails out input col entry = some details)
    (hblock : aliasBlock out config input order col ≠ []) :
    ∃ c more, aliasBlock out config input order col = c :: more ∧ c.details = details := by
  obtain ⟨d, hd⟩ := List.exists_mem_of_ne_nil _ hblock
  obtain ⟨hoffer, hcol⟩ := List.mem_filter.mp hd
  unfold aliasBlock sqlAlias at hblock ⊢
  unfold sqlAlias at hoffer
  split at hoffer
  · rename_i henabled
    rw [if_pos henabled, haliases]
    rw [haliases] at hoffer
    dsimp only at hoffer ⊢
    obtain ⟨-, -, hmem, -⟩ := mem_aliasOffers.mp hoffer
    rw [beq_iff_eq.mp hcol] at hmem
    rw [hfirst]
    unfold aliasOffers
    rw [List.flatMap_cons, List.filter_append]
    -- what the first alias offers for the column
    have hown : ∀ c ∈ (input.targetColumns.filterMap fun col =>
        (aliasDetails out input col entry).map fun details =>
          config.matching.sqlAlias.offer "sql_alias" (9 / 10) details col).filter
            (fun c => c.column == col), c.details = details := by
      intro c hc
      obtain ⟨hc, hcolumn⟩ := List.mem_filter.mp hc
      obtain ⟨other, -, hother⟩ := List.mem_filterMap.mp hc
      obtain ⟨found, hfound, rfl⟩ := Option.map_eq_some_iff.mp hother
      rw [show other = col from beq_iff_eq.mp hcolumn, hdetails] at hfound
      exact (Option.some.inj hfound).symm
    have hsome : config.matching.sqlAlias.offer "sql_alias" (9 / 10) details col ∈
        (input.targetColumns.filterMap fun col =>
          (aliasDetails out input col entry).map fun details =>
            config.matching.sqlAlias.offer "sql_alias" (9 / 10) details col).filter
              (fun c => c.column == col) := by
      refine List.mem_filter.mpr ⟨List.mem_filterMap.mpr ⟨col, hmem, ?_⟩, beq_self_eq_true col⟩
      rw [hdetails]
      rfl
    obtain ⟨c, more, hcons⟩ := List.exists_cons_of_ne_nil (List.ne_nil_of_mem hsome)
    rw [hcons] at hown ⊢
    exact ⟨c, _, rfl, hown c List.mem_cons_self⟩
  · exact absurd hoffer List.not_mem_nil

variable [LinearOrder K]

theorem sqlProximity_reason (h : c ∈ sqlProximity out config input) :
    c.reason = "sql_proximity" := by
  unfold sqlProximity at h
  dsimp only at h
  split at h
  · split at h
    · exact absurd h List.not_mem_nil
    · obtain ⟨col, -, hoffer⟩ := List.mem_filterMap.mp h
      split at hoffer
      · obtain ⟨found, -, rfl⟩ := Option.map_eq_some_iff.mp hoffer
        rfl
      · contradiction
  · exact absurd h List.not_mem_nil

theorem levenshteinMatch_reason (h : c ∈ levenshteinMatch out config input) :
    c.reason = "levenshtein_match" := by
  unfold levenshteinMatch at h
  dsimp only at h
  split at h
  · obtain ⟨col, -, rfl⟩ := List.mem_map.mp h
    rfl
  · exact absurd h List.not_mem_nil

/-- The later candidates, with the last resort of a target without columns. -/
def tailOffers (out : Surroundings) (config : ColumnLineageConfig K) (input : MatchInput) :
    List (Candidate K) :=
  laterOffers out config input ++
    if input.targetColumns.isEmpty then directSelect out config input else []

theorem tailOffers_reason (h : c ∈ tailOffers out config input) : c.reason ≠ "sql_alias" := by
  unfold tailOffers laterOffers at h
  simp only [List.mem_append] at h
  rcases h with (((((h | h) | h) | h) | h) | h) | h
  · rw [sqlProximity_reason h]
    decide
  · rw [sqlNestedField_reason h]
    decide
  · rw [affixMatch_reason h]
    decide
  · rw [affixMatch_reason h]
    decide
  · rw [normalizedMatch_reason h]
    decide
  · rw [levenshteinMatch_reason h]
    decide
  · split at h
    · rw [directSelect_reason h]
      decide
    · exact absurd h List.not_mem_nil

theorem offers_of_no_columns (h : input.targetColumns = []) :
    offers out config input order = [] := by
  unfold offers laterOffers exactMatch sqlAlias aliasOffers sqlProximity sqlNestedField suffixMatch
    prefixMatch affixMatch normalizedMatch levenshteinMatch
  simp only [h, List.filter_nil, List.map_nil, List.filterMap_nil, ite_self, List.append_nil]
  cases aliasMap out input <;> cases sqlForMatching input.sqlEntity <;> simp

/-- All candidates at once. -/
theorem bestMatches_eq (out : Surroundings) (config : ColumnLineageConfig K) (input : MatchInput)
    (order : IterationOrder K) :
    bestMatches out config input order =
      (exactMatch out config input ++ sqlAlias out config input order ++
        tailOffers out config input).foldl recordMatch [] := by
  have hsplit : exactMatch out config input ++ sqlAlias out config input order ++
      tailOffers out config input = offers out config input order ++
        if input.targetColumns.isEmpty then directSelect out config input else [] := by
    unfold tailOffers offers
    rw [List.append_assoc, List.append_assoc, List.append_assoc]
  rw [hsplit, List.foldl_append]
  unfold bestMatches
  dsimp only
  cases hempty : input.targetColumns.isEmpty with
  | true =>
      rw [offers_of_no_columns (List.isEmpty_iff.mp hempty)]
      rfl
  | false =>
      rw [Bool.and_false]
      rfl

/-! ## The order of the aliases -/

/-- What is recorded for a column before the aliases. -/
def exactRecord (out : Surroundings) (config : ColumnLineageConfig K) (input : MatchInput)
    (col : String) : Option (ColumnMatch K) :=
  ((exactMatch out config input).filter fun c => c.column == col).foldl better none

/-- What is recorded for a column with the first of the aliases. -/
def aliasRecord (out : Surroundings) (config : ColumnLineageConfig K) (input : MatchInput)
    (order : IterationOrder K) (col : String) : Option (ColumnMatch K) :=
  match aliasBlock out config input order col with
  | [] => exactRecord out config input col
  | c :: _ => better (exactRecord out config input col) c

theorem matchFor_bestMatches (order : IterationOrder K) (col : String) :
    matchFor (bestMatches out config input order) col =
      ((tailOffers out config input).filter fun c => c.column == col).foldl better
        (aliasRecord out config input order col) := by
  rw [bestMatches_eq, matchFor_foldl, List.filter_append, List.filter_append, List.foldl_append,
    List.foldl_append]
  congr 1
  unfold aliasRecord
  change (aliasBlock out config input order col).foldl better (exactRecord out config input col) = _
  cases hblock : aliasBlock out config input order col with
  | nil => rfl
  | cons c rest =>
      apply foldl_better_same
      intro d hd
      apply aliasBlock_score
      · rw [hblock]
        exact List.mem_cons_self
      · rw [hblock]
        exact List.mem_cons_of_mem c hd

/-- In two orders a column has the same record, or the records of two aliases. -/
theorem matchFor_cases (order order' : IterationOrder K) (col : String) :
    matchFor (bestMatches out config input order) col =
        matchFor (bestMatches out config input order') col ∨
      ∃ c ∈ aliasBlock out config input order col,
        ∃ c' ∈ aliasBlock out config input order' col,
          matchFor (bestMatches out config input order) col = some c.entry ∧
          matchFor (bestMatches out config input order') col = some c'.entry := by
  have hperm := aliasBlock_perm out config input order order' col
  rw [matchFor_bestMatches, matchFor_bestMatches]
  unfold aliasRecord
  cases hblock : aliasBlock out config input order col with
  | nil =>
      rw [hblock] at hperm
      rw [hperm.nil_eq.symm]
      exact Or.inl rfl
  | cons c rest =>
      cases hblock' : aliasBlock out config input order' col with
      | nil =>
          rw [hblock, hblock'] at hperm
          exact absurd hperm.eq_nil (List.cons_ne_nil _ _)
      | cons c' rest' =>
          dsimp only
          have hc : c ∈ aliasBlock out config input order col := hblock ▸ List.mem_cons_self
          have hc' : c' ∈ aliasBlock out config input order' col := hblock' ▸ List.mem_cons_self
          have hscore : c.entry.score = c'.entry.score := by
            rw [(mem_aliasBlock hc).2.1, (mem_aliasBlock hc').2.1]
            rfl
          by_cases hkept : ∃ m, exactRecord out config input col = some m ∧
              c.entry.score ≤ m.score
          · obtain ⟨m, hm, hle⟩ := hkept
            rw [better_of_le hm hle, better_of_le hm (hscore ▸ hle)]
            exact Or.inl rfl
          · have htaken : ∀ d : Candidate K, d.entry.score = c.entry.score →
                better (exactRecord out config input col) d = some d.entry := by
              intro d hd
              obtain ⟨m, hm, hle, hsource⟩ := exists_better (exactRecord out config input col) d
              rw [hm]
              cases hsource with
              | inl heq => rw [heq]
              | inr hold => exact absurd ⟨m, hold, hd ▸ hle⟩ hkept
            rw [htaken c rfl, htaken c' hscore.symm]
            cases foldl_better_alike hscore ((tailOffers out config input).filter
              fun c => c.column == col) with
            | inl hsame => exact Or.inl hsame
            | inr hboth => exact Or.inr ⟨c, List.mem_cons_self, c', List.mem_cons_self, hboth⟩

/-- A record of an alias is that of the first alias for the column. -/
theorem alias_record {col : String} {m : ColumnMatch K}
    (h : matchFor (bestMatches out config input order) col = some m)
    (hreason : m.matchReason = "sql_alias") :
    ∃ c rest, aliasBlock out config input order col = c :: rest ∧ m = c.entry := by
  have hexact : exactRecord out config input col ≠ some m := by
    intro hrecord
    cases foldl_better_source hrecord with
    | inl hnone => contradiction
    | inr hsome =>
        obtain ⟨c, hc, rfl⟩ := hsome
        have hother : c.reason = "exact_match" := exactMatch_reason (List.mem_filter.mp hc).1
        exact absurd (hother.symm.trans hreason) (by decide)
  rw [matchFor_bestMatches] at h
  cases foldl_better_source h with
  | inr htail =>
      obtain ⟨c, hc, rfl⟩ := htail
      exact absurd hreason (tailOffers_reason (List.mem_filter.mp hc).1)
  | inl hrecord =>
      unfold aliasRecord at hrecord
      cases hblock : aliasBlock out config input order col with
      | nil =>
          rw [hblock] at hrecord
          exact absurd hrecord hexact
      | cons c rest =>
          rw [hblock] at hrecord
          change better (exactRecord out config input col) c = some m at hrecord
          obtain ⟨m', hm', -, hsource⟩ := exists_better (exactRecord out config input col) c
          rw [hrecord] at hm'
          cases hm'
          cases hsource with
          | inl heq => exact ⟨c, rest, rfl, heq⟩
          | inr hold => exact absurd hold hexact

/-- The aliases do not disagree about a column. -/
def AliasesAgree (K : Type*) (out : Surroundings) (input : MatchInput) (col : String) : Prop :=
  ∀ aliases, aliasMap out input = some aliases →
    ∀ entry ∈ aliases.entries, ∀ entry' ∈ aliases.entries,
      ∀ details details' : List (String × Detail K),
        aliasDetails out input col entry = some details →
        aliasDetails out input col entry' = some details' → details = details'

theorem matchFor_same {order order' : IterationOrder K} {col : String} {m : ColumnMatch K}
    (h : matchFor (bestMatches out config input order) col = some m)
    (hagree : m.matchReason = "sql_alias" → AliasesAgree K out input col) :
    matchFor (bestMatches out config input order') col = some m := by
  cases matchFor_cases order order' col with
  | inl hsame => rw [← hsame, h]
  | inr hboth =>
      obtain ⟨c, hc, c', hc', hm, hm'⟩ := hboth
      rw [h] at hm
      cases hm
      obtain ⟨-, hoffer, aliases, haliases, entry, hentry, hdetails⟩ := mem_aliasBlock hc
      obtain ⟨-, hoffer', aliases', haliases', entry', hentry', hdetails'⟩ := mem_aliasBlock hc'
      rw [haliases] at haliases'
      cases haliases'
      have hreason : c.entry.matchReason = "sql_alias" := by
        rw [hoffer]
        rfl
      have heq := hagree hreason aliases haliases entry hentry entry' hentry' _ _ hdetails hdetails'
      rw [hm', hoffer', ← heq, ← hoffer]

variable (out config input) in
/-- The confidence of a column, and whether it has any, is the same in all orders. -/
theorem matchFor_confidence (order order' : IterationOrder K) (col : String) :
    (matchFor (bestMatches out config input order) col).map ColumnMatch.confidence =
      (matchFor (bestMatches out config input order') col).map ColumnMatch.confidence := by
  cases matchFor_cases order order' col with
  | inl hsame => rw [hsame]
  | inr hboth =>
      obtain ⟨c, hc, c', hc', hm, hm'⟩ := hboth
      rw [hm, hm', (mem_aliasBlock hc).2.1, (mem_aliasBlock hc').2.1]
      rfl

variable (out config input) in
theorem matchFor_reason (order order' : IterationOrder K) (col : String) :
    (matchFor (bestMatches out config input order) col).map ColumnMatch.matchReason =
      (matchFor (bestMatches out config input order') col).map ColumnMatch.matchReason := by
  cases matchFor_cases order order' col with
  | inl hsame => rw [hsame]
  | inr hboth =>
      obtain ⟨c, hc, c', hc', hm, hm'⟩ := hboth
      rw [hm, hm', (mem_aliasBlock hc).2.1, (mem_aliasBlock hc').2.1]
      rfl

theorem bestMatches_columns (order : IterationOrder K) :
    ((bestMatches out config input order).map ColumnMatch.columnName).Nodup := by
  rw [bestMatches_eq]
  exact foldl_columns _ List.nodup_nil

theorem mem_matchColumn {m : ColumnMatch K} : m ∈ matchColumn out config input order ↔
    matchFor (bestMatches out config input order) m.columnName = some m := by
  unfold matchColumn
  rw [(order.values_perm _).mem_iff, mem_iff_matchFor (bestMatches_columns order)]

theorem matchColumn_columns (order : IterationOrder K) :
    ((matchColumn out config input order).map ColumnMatch.columnName).Nodup :=
  ((order.values_perm _).map _).nodup_iff.mpr (bestMatches_columns order)

/-- A match by an alias shows the alias that is iterated first. -/
theorem alias_first {col : String} {aliases : AliasMap} {entry : String × String}
    {rest : List (String × String)} {details : List (String × Detail K)} {m : ColumnMatch K}
    (haliases : aliasMap out input = some aliases)
    (hfirst : order.aliases aliases = entry :: rest)
    (hdetails : aliasDetails out input col entry = some details)
    (h : matchFor (bestMatches out config input order) col = some m)
    (hreason : m.matchReason = "sql_alias") : m.explanation.details = details := by
  obtain ⟨c, more, hblock, rfl⟩ := alias_record h hreason
  obtain ⟨c', more', hblock', hown⟩ := aliasBlock_first haliases hfirst hdetails
    (by rw [hblock]; exact List.cons_ne_nil _ _ : aliasBlock out config input order col ≠ [])
  rw [hblock] at hblock'
  cases hblock'
  exact hown

end Offers

end DbtNova.ColumnMatching
