import DbtNova.Paging
import DbtNova.RankFusion
import DbtNova.Text
import Mathlib.Algebra.Field.Rat
import Mathlib.Algebra.Order.Ring.Rat

/-!
# The pages of a search

`ManifestSearch::search` of `tools/search/full.rs`, for a query that passed its checks. Each
page fetches, fuses, cuts off, rescores and sorts its own candidates. What the metadata make
of a candidate's score is a parameter.
-/
namespace DbtNova.SearchPages
open RankFusion Text

inductive DetailLevel
  | compact | standard | full
deriving DecidableEq

structure SearchCandidate (K : Type*) where
  uniqueId : String
  entity : Option ArchivedEntity
  score : K
  indicatorParentScore : Option K

/-- The fields of `SearchResponse` that tell about paging. -/
structure SearchPage (K : Type*) where
  results : List (SearchCandidate K)
  count : ℕ
  totalAvailable : Option ℕ
  truncated : Option Bool

structure CandidateScan (K : Type*) where
  candidates : List (SearchCandidate K)
  prevScore : Option K
  scoreCutoffActive : Bool
  totalAvailable : ℕ

section Model
variable {K : Type*}

def maxFetchLimit : ℕ := 2000

def pageLimit (config : RankFusion.SearchConfig K) (requested : Option ℕ) : ℕ :=
  let defaultLimit := max config.defaultLimit 1
  let limit := if requested.getD 0 = 0 then defaultLimit else requested.getD defaultLimit
  if config.maxPageSize = 0 then limit else min limit config.maxPageSize

/-- No saturation: beyond `maxFetchLimit` the product does not matter. -/
def fetchLimit (config : RankFusion.SearchConfig K) (baseLimit : ℕ) : ℕ :=
  min (baseLimit * max config.rrfOverfetch 1) maxFetchLimit

def normalizedResourceTypeFilter (toLowercase : String → String) (resourceTypes : List String) :
    Option (List String) :=
  if resourceTypes.isEmpty then none
  else some ((resourceTypes.map fun rt => toLowercase (trim rt)).filter fun rt => !rt.isEmpty)

def resourceTypeAllowedForSearch (toLowercase : String → String) (resourceType : Option String)
    (allowedResourceTypes : Option (List String)) : Bool :=
  match allowedResourceTypes, resourceType with
  | none, _ => true
  | some _, none => false
  | some allowed, some resourceType => allowed.contains (toLowercase (trim resourceType))

def allowedHit (query : Query K) (id : String) : Bool :=
  resourceTypeAllowedForSearch query.toLowercase
    ((query.getEntityArchived id).bind ArchivedEntity.resourceType)
    (normalizedResourceTypeFilter query.toLowercase query.resourceTypes)

def compareSearchCandidates [Zero K] [LinearOrder K] (left right : SearchCandidate K) : Ordering :=
  (compareScoresDesc left.score right.score).then
    ((compareScoresDesc (left.indicatorParentScore.getD 0)
      (right.indicatorParentScore.getD 0)).then (compare left.uniqueId right.uniqueId))

/-- The test of the loop that makes the cut-off active. -/
def cutsOff [Field K] [LinearOrder K] (baseLimit found : ℕ) (prevScore : Option K)
    (baseScore : K) : Bool :=
  match prevScore with
  | some previous => decide (baseScore < previous * (1 / 100)) && decide (baseLimit ≤ found)
  | none => false

def candidate (query : Query K) (indicatorParentScores : String → Option K)
    (adjustScore : String → K → K) (hit : String × K) : SearchCandidate K where
  uniqueId := hit.1
  entity := query.getEntityArchived hit.1
  score := adjustScore hit.1 hit.2
  indicatorParentScore := indicatorParentScores hit.1

/-- One round of the candidate loop. -/
def scanHit [Field K] [LinearOrder K] (query : Query K)
    (indicatorParentScores : String → Option K) (adjustScore : String → K → K) (baseLimit : ℕ)
    (scan : CandidateScan K) (hit : String × K) : CandidateScan K :=
  let scan :=
    if scan.scoreCutoffActive then scan
    else if cutsOff baseLimit scan.candidates.length scan.prevScore hit.2 then
      { scan with scoreCutoffActive := true }
    else { scan with prevScore := some hit.2 }
  if !allowedHit query hit.1 then scan
  else
    let scan := { scan with totalAvailable := scan.totalAvailable + 1 }
    if scan.scoreCutoffActive then scan
    else
      { scan with
        candidates := scan.candidates ++
          [candidate query indicatorParentScores adjustScore hit] }

def search [Field K] [LinearOrder K] (config : RankFusion.SearchConfig K) (query : Query K)
    (adjustScore : String → K → K) (detail : DetailLevel) (requested : Option ℕ) (offset : ℕ) :
    Except String (SearchPage K) :=
  if config.maxOffset < offset then
    .error ("Offset exceeds maximum of " ++ toString config.maxOffset)
  else
    let limit := pageLimit config requested
    let baseLimit := limit + offset
    let bundle := buildFusedHits config query (fetchLimit config baseLimit)
    let hits := rerankHits config query bundle.hits
    if hits.isEmpty then
      .ok { results := [], count := 0, totalAvailable := none, truncated := none }
    else
      let scan := hits.foldl
        (scanHit query bundle.indicatorParentScores adjustScore baseLimit)
        { candidates := [], prevScore := none, scoreCutoffActive := false, totalAvailable := 0 }
      let candidates := scan.candidates.insertionSort
        fun left right => (compareSearchCandidates left right).isLE
      let start := min offset scan.totalAvailable
      let stop := min (start + limit) scan.totalAvailable
      let results := ((candidates.drop start).take (stop - start)).filter
        fun candidate => detail == .standard || candidate.entity.isSome
      .ok
        { results := results
          count := results.length
          totalAvailable := some scan.totalAvailable
          truncated := if stop < scan.totalAvailable then some true else none }

end Model

section Scan
variable {K : Type*} [Field K] [LinearOrder K] {query : Query K}
  {indicatorParentScores : String → Option K} {adjustScore : String → K → K} {baseLimit : ℕ}
  {scan : CandidateScan K}

/-- The hits that become candidates. -/
def keptHits (query : Query K) (baseLimit : ℕ) :
    Option K → ℕ → List (String × K) → List (String × K)
  | _, _, [] => []
  | prevScore, found, hit :: hits =>
      if cutsOff baseLimit found prevScore hit.2 then []
      else if allowedHit query hit.1 then
        hit :: keptHits query baseLimit (some hit.2) (found + 1) hits
      else keptHits query baseLimit (some hit.2) found hits

def allowedHits (query : Query K) (hits : List (String × K)) : List (String × K) :=
  hits.filter fun hit => allowedHit query hit.1

omit [Field K] [LinearOrder K] in
theorem allowedHits_cons (hit : String × K) (hits : List (String × K)) :
    allowedHits query (hit :: hits) = allowedHits query [hit] ++ allowedHits query hits :=
  List.filter_append [hit] hits

omit [Field K] [LinearOrder K] in
theorem allowedHits_of_allowed {hit : String × K} (h : allowedHit query hit.1 = true)
    (hits : List (String × K)) : allowedHits query (hit :: hits) = hit :: allowedHits query hits :=
  List.filter_cons_of_pos h

omit [Field K] [LinearOrder K] in
theorem allowedHits_of_not_allowed {hit : String × K} (h : allowedHit query hit.1 = false)
    (hits : List (String × K)) : allowedHits query (hit :: hits) = allowedHits query hits :=
  List.filter_cons_of_neg (by simp [h])

theorem scanHit_active (hactive : scan.scoreCutoffActive = true) (hit : String × K) :
    scanHit query indicatorParentScores adjustScore baseLimit scan hit =
      { scan with totalAvailable := scan.totalAvailable + (allowedHits query [hit]).length } := by
  unfold scanHit allowedHits
  rw [if_pos hactive]
  cases hallowed : allowedHit query hit.1 with
  | false => simp [hallowed]
  | true => simp [hactive, hallowed]

/-- Once the cut-off is active, hits are only counted. -/
theorem scan_active (hits : List (String × K)) (hactive : scan.scoreCutoffActive = true) :
    hits.foldl (scanHit query indicatorParentScores adjustScore baseLimit) scan =
      { scan with totalAvailable := scan.totalAvailable + (allowedHits query hits).length } := by
  induction hits generalizing scan with
  | nil => rfl
  | cons hit hits ih =>
      rw [List.foldl_cons, scanHit_active hactive, allowedHits_cons hit hits, List.length_append,
        ← Nat.add_assoc]
      apply ih
      exact hactive

/-- Which candidates the loop makes, and how many hits it counts. -/
theorem scan_hits (hactive : scan.scoreCutoffActive = false) (hits : List (String × K)) :
    (hits.foldl (scanHit query indicatorParentScores adjustScore baseLimit) scan).candidates =
        scan.candidates ++ (keptHits query baseLimit scan.prevScore scan.candidates.length hits).map
          (candidate query indicatorParentScores adjustScore) ∧
      (hits.foldl (scanHit query indicatorParentScores adjustScore baseLimit) scan).totalAvailable =
        scan.totalAvailable + (allowedHits query hits).length := by
  induction hits generalizing scan with
  | nil => exact ⟨(List.append_nil _).symm, rfl⟩
  | cons hit hits ih =>
      rw [List.foldl_cons]
      unfold keptHits
      by_cases hcut : cutsOff baseLimit scan.candidates.length scan.prevScore hit.2 = true
      · -- from here on hits are only counted
        have hfirst : (hit :: hits).foldl
              (scanHit query indicatorParentScores adjustScore baseLimit) scan =
            (hit :: hits).foldl (scanHit query indicatorParentScores adjustScore baseLimit)
              { scan with scoreCutoffActive := true } := by
          rw [List.foldl_cons, List.foldl_cons]
          unfold scanHit
          simp [hactive, hcut]
        rw [← List.foldl_cons, hfirst, scan_active _ rfl, if_pos hcut]
        exact ⟨(List.append_nil _).symm, rfl⟩
      · rw [if_neg hcut]
        cases hallowed : allowedHit query hit.1 with
        | false =>
            have hstep : scanHit query indicatorParentScores adjustScore baseLimit scan hit =
                { scan with prevScore := some hit.2 } := by
              unfold scanHit
              simp [hactive, hcut, hallowed]
            rw [hstep, allowedHits_of_not_allowed hallowed]
            exact ih hactive
        | true =>
            have hstep : scanHit query indicatorParentScores adjustScore baseLimit scan hit =
                { scan with
                  prevScore := some hit.2
                  totalAvailable := scan.totalAvailable + 1
                  candidates := scan.candidates ++
                    [candidate query indicatorParentScores adjustScore hit] } := by
              unfold scanHit
              simp [hactive, hcut, hallowed]
            have hrest := @ih
              { scan with
                prevScore := some hit.2
                totalAvailable := scan.totalAvailable + 1
                candidates := scan.candidates ++
                  [candidate query indicatorParentScores adjustScore hit] } hactive
            obtain ⟨hcandidates, htotal⟩ := hrest
            rw [hstep, hcandidates, htotal, allowedHits_of_allowed hallowed]
            constructor
            · simp [List.length_append]
            · dsimp only
              rw [List.length_cons]
              omega

theorem scan_spec (query : Query K) (indicatorParentScores : String → Option K)
    (adjustScore : String → K → K) (baseLimit : ℕ) (hits : List (String × K)) :
    (hits.foldl (scanHit query indicatorParentScores adjustScore baseLimit)
        ⟨[], none, false, 0⟩).candidates =
        (keptHits query baseLimit none 0 hits).map
          (candidate query indicatorParentScores adjustScore) ∧
      (hits.foldl (scanHit query indicatorParentScores adjustScore baseLimit)
        ⟨[], none, false, 0⟩).totalAvailable = (allowedHits query hits).length := by
  have hactive : (⟨[], none, false, 0⟩ : CandidateScan K).scoreCutoffActive = false := rfl
  obtain ⟨hcandidates, htotal⟩ := scan_hits hactive hits
  refine ⟨hcandidates, ?_⟩
  rw [htotal]
  exact Nat.zero_add _

theorem keptHits_sublist (prevScore : Option K) (found : ℕ) (hits : List (String × K)) :
    (keptHits query baseLimit prevScore found hits).Sublist (allowedHits query hits) := by
  induction hits generalizing prevScore found with
  | nil => exact List.Sublist.refl []
  | cons hit hits ih =>
      unfold keptHits
      split
      · exact List.nil_sublist _
      · cases hallowed : allowedHit query hit.1 with
        | false =>
            rw [allowedHits_of_not_allowed hallowed]
            exact ih _ _
        | true =>
            rw [allowedHits_of_allowed hallowed]
            exact (ih _ _).cons_cons hit

/-- The cut-off drops nothing before the page is full. -/
theorem keptHits_length (prevScore : Option K) (found : ℕ) (hits : List (String × K)) :
    min baseLimit (found + (allowedHits query hits).length) ≤
      found + (keptHits query baseLimit prevScore found hits).length := by
  induction hits generalizing prevScore found with
  | nil =>
      unfold keptHits allowedHits
      simp
  | cons hit hits ih =>
      unfold keptHits
      split
      · rename_i hcut
        have hfull : baseLimit ≤ found := by
          unfold cutsOff at hcut
          split at hcut
          · rw [Bool.and_eq_true, decide_eq_true_eq, decide_eq_true_eq] at hcut
            exact hcut.2
          · contradiction
        omega
      · cases hallowed : allowedHit query hit.1 with
        | false =>
            rw [allowedHits_of_not_allowed hallowed]
            exact ih _ _
        | true =>
            have hrest := ih (some hit.2) (found + 1)
            rw [allowedHits_of_allowed hallowed, if_pos rfl, List.length_cons, List.length_cons]
            omega

end Scan

section Order
variable {K : Type*} [Field K] [LinearOrder K]

instance : Std.TransCmp (compareSearchCandidates (K := K)) :=
  inferInstanceAs (Std.TransCmp (compareLex
    (fun left right => compareOn SearchCandidate.score right left)
    (compareLex
      (fun left right => compareOn
        (fun candidate : SearchCandidate K => candidate.indicatorParentScore.getD 0) right left)
      (compareOn SearchCandidate.uniqueId))))

theorem compare_eq {left right : SearchCandidate K}
    (h : compareSearchCandidates left right = .eq) : left.uniqueId = right.uniqueId := by
  unfold compareSearchCandidates at h
  rw [Ordering.then_eq_eq, Ordering.then_eq_eq] at h
  exact Std.LawfulEqOrd.eq_of_compare h.2.2

/-- A higher score comes first. -/
theorem compare_of_score {left right : SearchCandidate K} (h : right.score < left.score) :
    compareSearchCandidates left right = .lt := by
  unfold compareSearchCandidates compareScoresDesc
  rw [compare_lt_iff_lt.mpr h]
  rfl

end Order

section Pages
variable {K : Type*} [Field K] [LinearOrder K] {config : RankFusion.SearchConfig K}
  {query : Query K}
  {adjustScore : String → K → K} {detail : DetailLevel} {limit offset : ℕ}

/-- The hits of a request with this limit and offset. -/
def fetchedHits (config : RankFusion.SearchConfig K) (query : Query K) (limit offset : ℕ) :
    List (String × K) :=
  searchHits config query (fetchLimit config (pageLimit config (some limit) + offset))

/-- How many of them have an allowed type. -/
def totalFound (config : RankFusion.SearchConfig K) (query : Query K) (limit offset : ℕ) : ℕ :=
  (allowedHits query (fetchedHits config query limit offset)).length

/-- Those that become candidates. -/
def considered (config : RankFusion.SearchConfig K) (query : Query K) (limit offset : ℕ) :
    List (String × K) :=
  keptHits query (pageLimit config (some limit) + offset) none 0
    (fetchedHits config query limit offset)

def parentScores (config : RankFusion.SearchConfig K) (query : Query K) : String → Option K :=
  if config.enableRrf then (query.indicator.map Prod.snd).getD fun _ => none else fun _ => none

/-- The candidate of a hit, which no request changes. -/
def candidateOf (config : RankFusion.SearchConfig K) (query : Query K)
    (adjustScore : String → K → K) : String × K → SearchCandidate K :=
  candidate query (parentScores config query) adjustScore

def Before (config : RankFusion.SearchConfig K) (query : Query K) (adjustScore : String → K → K)
    (left right : String × K) : Prop :=
  (compareSearchCandidates (candidateOf config query adjustScore left)
    (candidateOf config query adjustScore right)).isLE = true

instance : DecidableRel (Before config query adjustScore) :=
  fun _ _ => inferInstanceAs (Decidable (_ = true))

instance : Std.Total (Before config query adjustScore) where
  total left right := by
    by_cases hle : Before config query adjustScore left right
    · exact Or.inl hle
    · apply Or.inr
      unfold Before
      rw [Std.OrientedCmp.lt_of_not_isLE hle]
      rfl

instance : IsTrans (String × K) (Before config query adjustScore) where
  trans _ _ _ hab hbc := Std.TransCmp.isLE_trans hab hbc

theorem separates {hits : List (String × K)} (h : UniqueIds hits) :
    Paging.Separates (Before config query adjustScore) hits := by
  intro a ha b hb hab hba
  have hid : a.1 = b.1 := compare_eq (Std.OrientedCmp.isLE_antisymm hab hba)
  exact List.inj_on_of_nodup_map h ha hb hid

theorem considered_sublist :
    (considered config query limit offset).Sublist
      (allowedHits query (fetchedHits config query limit offset)) :=
  keptHits_sublist _ _ _

theorem considered_unique : UniqueIds (considered config query limit offset) := by
  have hfetched : (allowedHits query (fetchedHits config query limit offset)).Sublist
      (fetchedHits config query limit offset) := List.filter_sublist
  have hsublist := considered_sublist.trans hfetched
  exact (searchHits_unique config query _).sublist (hsublist.map Prod.fst)

theorem considered_length_le (config : RankFusion.SearchConfig K) (query : Query K)
    (limit offset : ℕ) :
    (considered config query limit offset).length ≤ totalFound config query limit offset :=
  considered_sublist.length_le

theorem le_considered_length (config : RankFusion.SearchConfig K) (query : Query K)
    (limit offset : ℕ) :
    min (pageLimit config (some limit) + offset) (totalFound config query limit offset) ≤
      (considered config query limit offset).length := by
  have hlength : min (pageLimit config (some limit) + offset)
      (0 + (allowedHits query (fetchedHits config query limit offset)).length) ≤
      0 + (considered config query limit offset).length := keptHits_length none 0 _
  rw [Nat.zero_add, Nat.zero_add] at hlength
  exact hlength

omit [Field K] [LinearOrder K] in
theorem pageLimit_eq (config : RankFusion.SearchConfig K) (hlimit : 1 ≤ limit) :
    pageLimit config (some limit) =
      if config.maxPageSize = 0 then limit else min limit config.maxPageSize := by
  have hrequested : limit ≠ 0 := by omega
  unfold pageLimit
  dsimp only [Option.getD_some]
  rw [if_neg hrequested]

omit [Field K] [LinearOrder K] in
theorem zero_lt_pageLimit (config : RankFusion.SearchConfig K) (requested : Option ℕ) :
    0 < pageLimit config requested := by
  have hlimit : 0 < if requested.getD 0 = 0 then max config.defaultLimit 1
      else requested.getD (max config.defaultLimit 1) := by
    cases requested with
    | none => exact Nat.lt_of_lt_of_le Nat.zero_lt_one (Nat.le_max_right _ 1)
    | some limit =>
        dsimp only [Option.getD_some]
        split
        · exact Nat.lt_of_lt_of_le Nat.zero_lt_one (Nat.le_max_right _ 1)
        · omega
  unfold pageLimit
  dsimp only
  split
  · exact hlimit
  · exact Nat.lt_min.mpr ⟨hlimit, by omega⟩

omit [Field K] [LinearOrder K] in
theorem pageLimit_pos (config : RankFusion.SearchConfig K) (hlimit : 1 ≤ limit) :
    1 ≤ pageLimit config (some limit) := by
  rw [pageLimit_eq config hlimit]
  split <;> omega

omit [Field K] [LinearOrder K] in
theorem pageLimit_le (config : RankFusion.SearchConfig K) (hlimit : 1 ≤ limit) :
    pageLimit config (some limit) ≤ limit := by
  rw [pageLimit_eq config hlimit]
  split <;> omega

/-- The considered hits in the order of their candidates. -/
def ranked (config : RankFusion.SearchConfig K) (query : Query K) (adjustScore : String → K → K)
    (limit offset : ℕ) : List (String × K) :=
  (considered config query limit offset).insertionSort (Before config query adjustScore)

def shown (detail : DetailLevel) (candidate : SearchCandidate K) : Bool :=
  detail == .standard || candidate.entity.isSome

theorem parentScores_eq (fetchLimit : ℕ) :
    (buildFusedHits config query fetchLimit).indicatorParentScores = parentScores config query := by
  unfold buildFusedHits parentScores
  split
  · rfl
  · rfl

theorem sort_candidates :
    ((considered config query limit offset).map
        (candidateOf config query adjustScore)).insertionSort
          (fun left right => (compareSearchCandidates left right).isLE) =
      (ranked config query adjustScore limit offset).map
        (candidateOf config query adjustScore) := by
  symm
  apply List.map_insertionSort
  intro a _ b _
  exact Iff.rfl

/-- What a page shows, in terms of its candidates. -/
theorem search_eq (query : Query K) (adjustScore : String → K → K) (detail : DetailLevel)
    (limit : ℕ) (hoffset : offset ≤ config.maxOffset) :
    ∃ page, search config query adjustScore detail (some limit) offset = .ok page ∧
      page.results = ((((ranked config query adjustScore limit offset).drop offset).take
        (pageLimit config (some limit))).map (candidateOf config query adjustScore)).filter
          (shown detail) ∧
      (page.truncated = some true ↔
        offset + pageLimit config (some limit) < totalFound config query limit offset) := by
  unfold search
  rw [if_neg (Nat.not_lt.mpr hoffset)]
  dsimp only
  rw [parentScores_eq]
  split
  · rename_i hempty
    have hnil : fetchedHits config query limit offset = [] := List.isEmpty_iff.mp hempty
    refine ⟨_, rfl, ?_, ?_⟩
    · unfold ranked considered
      rw [hnil]
      unfold keptHits
      simp
    · unfold totalFound
      rw [hnil]
      unfold allowedHits
      simp
  · obtain ⟨hcandidates, htotal⟩ := scan_spec query (parentScores config query) adjustScore
      (pageLimit config (some limit) + offset) (fetchedHits config query limit offset)
    change _ = (considered config query limit offset).map
      (candidateOf config query adjustScore) at hcandidates
    change _ = totalFound config query limit offset at htotal
    have hlength : ((ranked config query adjustScore limit offset).map
        (candidateOf config query adjustScore)).length ≤ totalFound config query limit offset := by
      unfold ranked
      rw [List.length_map, List.length_insertionSort]
      exact considered_length_le config query limit offset
    refine ⟨_, rfl, ?_, ?_⟩
    · change List.filter (shown detail) _ = _
      unfold fetchedHits searchHits at hcandidates htotal
      rw [hcandidates, htotal, sort_candidates, Paging.slice_eq hlength, List.map_take,
        List.map_drop]
    · unfold fetchedHits searchHits at htotal
      rw [htotal, ← Paging.stop_lt]
      dsimp only
      split
      · rename_i hstop
        exact iff_of_true rfl hstop
      · rename_i hstop
        exact iff_of_false (fun h => nomatch h) hstop

end Pages

section Fit
variable {K : Type*} [Field K] [LinearOrder K] {config : RankFusion.SearchConfig K}
  {query : Query K}
  {adjustScore : String → K → K} {detail : DetailLevel} {limit offset : ℕ}

/-- A page that exists considers only hits, with their scores, that the page before it
considered. -/
def NoNewcomers (config : RankFusion.SearchConfig K) (query : Query K) (limit : ℕ) : Prop :=
  ∀ j, (j + 1) * limit ≤ config.maxOffset →
    (j + 1) * limit < totalFound config query limit ((j + 1) * limit) →
    considered config query limit ((j + 1) * limit) ⊆ considered config query limit (j * limit)

/-- The pages that the offsets `0`, `limit`, `2 * limit` and so on have, up to `max_offset`. -/
structure PagesFit (config : RankFusion.SearchConfig K) (query : Query K)
    (adjustScore : String → K → K) (detail : DetailLevel) (limit : ℕ) : Prop where
  disjoint : ∀ i j earlier later, i < j →
    search config query adjustScore detail (some limit) (i * limit) = .ok earlier →
    search config query adjustScore detail (some limit) (j * limit) = .ok later →
    ∀ a ∈ earlier.results, ∀ b ∈ later.results, a.uniqueId ≠ b.uniqueId
  ordered : ∀ i j earlier later, i < j →
    search config query adjustScore detail (some limit) (i * limit) = .ok earlier →
    search config query adjustScore detail (some limit) (j * limit) = .ok later →
    ∀ a ∈ earlier.results, ∀ b ∈ later.results, compareSearchCandidates b a ≠ .lt
  complete : ∀ i j earlier later, i < j →
    search config query adjustScore detail (some limit) (i * limit) = .ok earlier →
    search config query adjustScore detail (some limit) (j * limit) = .ok later →
    earlier.truncated ≠ some true → later.results = []

omit [Field K] [LinearOrder K] in
theorem length_le_of_subset {hits hits' : List (String × K)} (h : UniqueIds hits)
    (hsub : hits ⊆ hits') : hits.length ≤ hits'.length :=
  (List.subperm_of_subset (List.Nodup.of_map Prod.fst h) hsub).length_le

theorem considered_subset (hlimit : 1 ≤ limit) (hnew : NoNewcomers config query limit)
    {i j : ℕ} (hij : i ≤ j) (hoffset : j * limit ≤ config.maxOffset)
    (hfound : j * limit < totalFound config query limit (j * limit)) :
    considered config query limit (j * limit) ⊆ considered config query limit (i * limit) := by
  induction j, hij using Nat.le_induction with
  | base => exact List.Subset.refl _
  | succ j hij ih =>
      have hsub := hnew j hoffset hfound
      have hstep : j * limit < (j + 1) * limit := by
        rw [Nat.add_mul]
        omega
      apply List.Subset.trans hsub
      apply ih (by omega)
      -- what the later page considers, the earlier one found too
      have hlater := le_considered_length config query limit ((j + 1) * limit)
      have hearlier := considered_length_le config query limit (j * limit)
      have hlength := length_le_of_subset considered_unique hsub
      have hpage := pageLimit_pos config hlimit
      omega

/-- A page is made of the ranked hits from its offset on. -/
theorem of_search {page : SearchPage K}
    (h : search config query adjustScore detail (some limit) offset = .ok page) :
    offset ≤ config.maxOffset ∧
      page.results = ((((ranked config query adjustScore limit offset).drop offset).take
        (pageLimit config (some limit))).map (candidateOf config query adjustScore)).filter
          (shown detail) ∧
      (page.truncated = some true ↔
        offset + pageLimit config (some limit) < totalFound config query limit offset) := by
  have hoffset : offset ≤ config.maxOffset := by
    apply Nat.not_lt.mp
    intro hlt
    unfold search at h
    rw [if_pos hlt] at h
    contradiction
  obtain ⟨page', hpage, hresults, htruncated⟩ :=
    search_eq query adjustScore detail limit hoffset
  rw [h] at hpage
  cases hpage
  exact ⟨hoffset, hresults, htruncated⟩

theorem exists_of_mem {page : SearchPage K} {a : SearchCandidate K}
    (h : search config query adjustScore detail (some limit) offset = .ok page)
    (ha : a ∈ page.results) :
    ∃ k hit, offset ≤ k ∧ k < offset + pageLimit config (some limit) ∧
      (ranked config query adjustScore limit offset)[k]? = some hit ∧
      a = candidateOf config query adjustScore hit := by
  obtain ⟨-, hresults, -⟩ := of_search h
  rw [hresults] at ha
  obtain ⟨hit, hhit, hcandidate⟩ := List.mem_map.mp (List.mem_of_mem_filter ha)
  obtain ⟨k, hk, hget⟩ := List.mem_take_iff_getElem.mp hhit
  refine ⟨offset + k, hit, by omega, by omega, ?_, hcandidate.symm⟩
  rw [← List.getElem?_drop, List.getElem?_eq_some_iff]
  exact ⟨by omega, hget⟩

theorem mem_of_ranked {page : SearchPage K} {hit : String × K} {k : ℕ}
    (h : search config query adjustScore .standard (some limit) offset = .ok page)
    (hk : offset ≤ k) (hpage : k < offset + pageLimit config (some limit))
    (hhit : (ranked config query adjustScore limit offset)[k]? = some hit) :
    candidateOf config query adjustScore hit ∈ page.results := by
  obtain ⟨-, hresults, -⟩ := of_search h
  obtain ⟨hlt, hget⟩ := List.getElem?_eq_some_iff.mp hhit
  rw [hresults, List.mem_filter]
  refine ⟨List.mem_map.mpr ⟨hit, ?_, rfl⟩, rfl⟩
  apply List.mem_take_iff_getElem.mpr
  have hdrop :
      k - offset < ((ranked config query adjustScore limit offset).drop offset).length := by
    rw [List.length_drop]
    omega
  refine ⟨k - offset, by omega, ?_⟩
  rw [List.getElem_drop, ← hget]
  congr 1
  omega

theorem le_next {i j : ℕ} (hij : i < j) : i * limit + limit ≤ j * limit := by
  have hle := Nat.mul_le_mul_right limit hij
  rw [Nat.succ_mul] at hle
  exact hle

theorem lt_totalFound {page : SearchPage K} {b : SearchCandidate K}
    (h : search config query adjustScore detail (some limit) offset = .ok page)
    (hb : b ∈ page.results) : offset < totalFound config query limit offset := by
  obtain ⟨q, hit, hq, -, hhit, -⟩ := exists_of_mem h hb
  obtain ⟨hlt, -⟩ := List.getElem?_eq_some_iff.mp hhit
  have hlength := considered_length_le config query limit offset
  unfold ranked at hlt
  rw [List.length_insertionSort] at hlt
  omega

/-- Two pages fit together if the later one considers nothing new. -/
theorem later_page (hlimit : 1 ≤ limit) (hnew : NoNewcomers config query limit) {i j : ℕ}
    (hij : i < j) {earlier later : SearchPage K} {a b : SearchCandidate K}
    (hearlier : search config query adjustScore detail (some limit) (i * limit) = .ok earlier)
    (hlater : search config query adjustScore detail (some limit) (j * limit) = .ok later)
    (ha : a ∈ earlier.results) (hb : b ∈ later.results) :
    a.uniqueId ≠ b.uniqueId ∧ compareSearchCandidates b a ≠ .lt := by
  obtain ⟨hoffset, -, -⟩ := of_search hlater
  have hsub := considered_subset hlimit hnew hij.le hoffset (lt_totalFound hlater hb)
  obtain ⟨p, hit, -, hp, hhit, rfl⟩ := exists_of_mem hearlier ha
  obtain ⟨q, hit', hq, -, hhit', rfl⟩ := exists_of_mem hlater hb
  have hnot : ¬ Before config query adjustScore hit' hit := by
    have hpage := pageLimit_le config hlimit
    have hnext : i * limit + limit ≤ j * limit := le_next hij
    have hbound : p < j * limit := by omega
    exact Paging.not_before (List.Nodup.of_map Prod.fst considered_unique)
      (separates considered_unique) hsub hbound hq hhit hhit'
  constructor
  · intro hid
    have hmem : hit ∈ considered config query limit (i * limit) :=
      (List.mem_insertionSort _).mp (List.mem_of_getElem? hhit)
    have hmem' : hit' ∈ considered config query limit (i * limit) :=
      hsub ((List.mem_insertionSort _).mp (List.mem_of_getElem? hhit'))
    have heq := List.inj_on_of_nodup_map considered_unique hmem hmem' hid
    rw [heq] at hnot
    exact hnot Std.ReflCmp.isLE_rfl
  · intro hcompare
    apply hnot
    unfold Before
    rw [hcompare]
    rfl

theorem fit_of_noNewcomers (hlimit : 1 ≤ limit) (hnew : NoNewcomers config query limit)
    (adjustScore : String → K → K) (detail : DetailLevel) :
    PagesFit config query adjustScore detail limit := by
  constructor
  · intro i j earlier later hij hearlier hlater a ha b hb
    exact (later_page hlimit hnew hij hearlier hlater ha hb).1
  · intro i j earlier later hij hearlier hlater a ha b hb
    exact (later_page hlimit hnew hij hearlier hlater ha hb).2
  · intro i j earlier later hij hearlier hlater htruncated
    apply List.eq_nil_iff_forall_not_mem.mpr
    intro b hb
    obtain ⟨-, -, hend⟩ := of_search hearlier
    obtain ⟨hoffset, -, -⟩ := of_search hlater
    have hfound := lt_totalFound hlater hb
    have hsub := considered_subset hlimit hnew hij.le hoffset hfound
    -- the earlier page found what the later one shows, so it was truncated
    have hlength := length_le_of_subset considered_unique hsub
    have hearlier' := considered_length_le config query limit (i * limit)
    have hlater' := le_considered_length config query limit (j * limit)
    have hpos := pageLimit_pos config hlimit
    have hpage := pageLimit_le config hlimit
    have hnext : i * limit + limit ≤ j * limit := le_next hij
    apply htruncated
    apply hend.mpr
    omega

/-- A place that was found is shown, on the page from there on. -/
theorem results_ne_nil {page : SearchPage K} (hlimit : 1 ≤ limit)
    (h : search config query adjustScore .standard (some limit) offset = .ok page)
    (hfound : offset < totalFound config query limit offset) : page.results ≠ [] := by
  have hpage := pageLimit_pos config hlimit
  have hlength := le_considered_length config query limit offset
  have hlt : offset < (ranked config query adjustScore limit offset).length := by
    unfold ranked
    rw [List.length_insertionSort]
    omega
  apply List.ne_nil_of_mem
  exact mem_of_ranked h (Nat.le_refl offset) (by omega) (List.getElem?_eq_getElem hlt)

/-- A page with a successor is full. -/
theorem full_of_fit (hlimit : 1 ≤ limit) (hpage : pageLimit config (some limit) = limit)
    (hfit : PagesFit config query adjustScore .standard limit) {j : ℕ}
    (hoffset : (j + 1) * limit ≤ config.maxOffset)
    (hfound : (j + 1) * limit < totalFound config query limit ((j + 1) * limit)) :
    (j + 1) * limit ≤ (considered config query limit (j * limit)).length := by
  have hnext : j * limit + limit = (j + 1) * limit := (Nat.succ_mul j limit).symm
  have hoffset' : j * limit ≤ config.maxOffset := by omega
  obtain ⟨earlier, hearlier, -, hend⟩ := search_eq query adjustScore .standard limit hoffset'
  obtain ⟨later, hlater, -, -⟩ := search_eq query adjustScore .standard limit hoffset
  apply Nat.not_lt.mp
  intro hshort
  apply results_ne_nil hlimit hlater hfound
  apply hfit.complete j (j + 1) earlier later (by omega) hearlier hlater
  have hlength := le_considered_length config query limit (j * limit)
  rw [Ne, hend]
  omega

/-- The place of a hit in a class is its score, with the sign changed. -/
def rankScore (rank : String × K → ℕ) (id : String) (score : K) : K := -(rank (id, score) : K)

theorem respects_rank [IsStrictOrderedRing K] (rank : String × K → ℕ) :
    Paging.Respects (Before config query (rankScore rank)) rank := by
  intro a b hrank
  have hscore : (candidateOf config query (rankScore rank) b).score <
      (candidateOf config query (rankScore rank) a).score :=
    neg_lt_neg (Nat.cast_lt.mpr hrank)
  have hlt := compare_of_score hscore
  constructor
  · unfold Before
    rw [hlt]
    rfl
  · exact Std.OrientedCmp.not_isLE_of_lt hlt

theorem noNewcomers_of_fit [IsStrictOrderedRing K] (hlimit : 1 ≤ limit)
    (hpage : pageLimit config (some limit) = limit)
    (hfit : ∀ adjustScore, PagesFit config query adjustScore .standard limit) {j : ℕ}
    (hoffset : (j + 1) * limit ≤ config.maxOffset)
    (hfound : (j + 1) * limit < totalFound config query limit ((j + 1) * limit)) :
    considered config query limit ((j + 1) * limit) ⊆
      considered config query limit (j * limit) := by
  have hnext : j * limit + limit = (j + 1) * limit := (Nat.succ_mul j limit).symm
  have hfull := full_of_fit hlimit hpage (hfit fun _ score => score) hoffset hfound
  have hlonger : (j + 1) * limit < (considered config query limit ((j + 1) * limit)).length := by
    have hlength := le_considered_length config query limit ((j + 1) * limit)
    omega
  intro x hx
  by_contra hnew
  obtain ⟨rank, hbreaks⟩ := Paging.newcomer_breaks (List.Nodup.of_map Prod.fst considered_unique)
    (List.Nodup.of_map Prod.fst considered_unique) (by omega) hfull hlonger hx hnew
  have hfit' := hfit (rankScore rank)
  have hoffset' : j * limit ≤ config.maxOffset := by omega
  obtain ⟨earlier, hearlier, -, -⟩ := search_eq query (rankScore rank) .standard limit hoffset'
  obtain ⟨later, hlater, -, -⟩ := search_eq query (rankScore rank) .standard limit hoffset
  cases hbreaks (Before config query (rankScore rank)) (separates considered_unique)
      (separates considered_unique) (respects_rank rank) with
  | inl hboth =>
      obtain ⟨y, hy, hy'⟩ := hboth
      have hmem := mem_of_ranked hearlier (by omega) (by omega) hy
      have hmem' := mem_of_ranked hlater (by omega) (by omega) hy'
      exact hfit'.disjoint j (j + 1) earlier later (by omega) hearlier hlater _ hmem _ hmem' rfl
  | inr hswapped =>
      obtain ⟨a, b, ha, hb, -, hnot⟩ := hswapped
      have hmem := mem_of_ranked hearlier (by omega) (by omega) ha
      have hmem' := mem_of_ranked hlater (by omega) (by omega) hb
      have hlt := Std.OrientedCmp.lt_of_not_isLE hnot
      exact hfit'.ordered j (j + 1) earlier later (by omega) hearlier hlater _ hmem _ hmem' hlt

end Fit

section Newcomer

/-- The defaults of `SearchConfig`. -/
def defaultConfig : RankFusion.SearchConfig ℚ where
  defaultLimit := 50
  maxPageSize := 2000
  maxOffset := 10000
  enableRrf := true
  rrfK := 60
  rrfOverfetch := 3
  vectorTopK := 200
  sparseTopK := 200
  enableReranker := false
  rerankTopN := 20
  personaWeights := ⟨1, 1, 1, 1, 1, 1⟩

/-- Both rankings have `"b"` in their fourth place, which the second page reads first. -/
def overtakingQuery : Query ℚ where
  primary := [("a", 9), ("c", 8), ("d", 7), ("b", 6)]
  primary_unique := by decide
  ngram := some ["e", "f", "g", "b"]
  fuzzy := none
  vector := none
  sparse := none
  indicator := none
  rerank := fun _ _ => none
  getEntityArchived := fun _ => some ⟨some "model"⟩
  resourceTypes := []
  toLowercase := id

def idsAt (config : RankFusion.SearchConfig ℚ) (query : Query ℚ) (offset : ℕ) :
    Option (List String) :=
  (search config query (fun _ score => score) .standard (some 1) offset).toOption.map fun page =>
    page.results.map SearchCandidate.uniqueId

theorem page_of_idsAt {config : RankFusion.SearchConfig ℚ} {query : Query ℚ} {offset : ℕ}
    {id : String}
    (h : idsAt config query offset = some [id]) :
    ∃ page, search config query (fun _ score => score) .standard (some 1) offset = .ok page ∧
      ∃ a ∈ page.results, a.uniqueId = id := by
  unfold idsAt at h
  cases hsearch : search config query (fun _ score => score) .standard (some 1) offset with
  | error message =>
      rw [hsearch] at h
      contradiction
  | ok page =>
      rw [hsearch] at h
      have hids : page.results.map SearchCandidate.uniqueId = [id] := Option.some.inj h
      refine ⟨page, rfl, ?_⟩
      apply List.mem_map.mp
      rw [hids]
      exact List.mem_singleton_self id

end Newcomer

end DbtNova.SearchPages
