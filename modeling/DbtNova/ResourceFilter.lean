import DbtNova.Reranking

/-!
# The filter by resource type

`TantivySearcher::search` takes the entries of `resource_types` for terms of the index. `search`
of `tools/search/full.rs` trims them, puts them in lower case and compares them with the types of
the fused hits. The vector retrievers see no filter, and the indicators are filtered as the
fused hits are.
-/
namespace DbtNova.ResourceFilter
open RankFusion Reranking SearchPages

/-- A document that the query of a text retriever matches. -/
structure TextDoc (K : Type*) where
  uniqueId : String
  /-- The term in its field `resource_type` -/
  resourceType : Option String
  /-- Its score without a filter -/
  score : K

/-- A query on a fixed index, with what each retriever finds before it is filtered. -/
structure IndexQuery (K : Type*) where
  primary : List (TextDoc K)
  /-- An entity has one document. -/
  primary_unique : (primary.map TextDoc.uniqueId).Nodup
  ngram : Option (List (TextDoc K))
  fuzzy : Option (List (TextDoc K))
  vector : Option (List String)
  sparse : Option (List String)
  /-- The parents of the matching indicators, for the persona that looks at them -/
  indicator : Option (List String)
  /-- The scores of the parents, among the entities that are let through -/
  indicatorParentScores : (String → Bool) → String → Option K
  rerank : List String → ℕ → Option (List (ℕ × K))
  getEntityArchived : String → Option ArchivedEntity
  minScore : Option K
  /-- The score of the term for this type -/
  typeScore : String → K

section Model
variable {K : Type*}

def entityAllowed (toLowercase : String → String) (D : IndexQuery K) (resourceTypes : List String)
    (id : String) : Bool :=
  resourceTypeAllowedForSearch toLowercase
    ((D.getEntityArchived id).bind ArchivedEntity.resourceType)
    (normalizedResourceTypeFilter toLowercase resourceTypes)

def matchesTypes (resourceTypes : List String) (doc : TextDoc K) : Bool :=
  resourceTypes.isEmpty || resourceTypes.any fun rt => doc.resourceType == some rt

variable [Field K] [LinearOrder K]

/-- Every entry is a clause of its own, and the scores of the clauses that hold add up. -/
def typeBonus (D : IndexQuery K) (resourceTypes : List String) (doc : TextDoc K) : K :=
  match doc.resourceType with
  | none => 0
  | some resourceType => (resourceTypes.count resourceType : K) * D.typeScore resourceType

def reachesMinScore (D : IndexQuery K) (hit : String × K) : Bool :=
  D.minScore.all fun minScore => decide (minScore ≤ hit.2)

/-- The documents with the types of the filter, without a limit. -/
def tantivySearch (D : IndexQuery K) (resourceTypes : List String) (docs : List (TextDoc K)) :
    List (String × K) :=
  (((docs.filter (matchesTypes resourceTypes)).map fun doc =>
    (doc.uniqueId, doc.score + typeBonus D resourceTypes doc)).filter
      (reachesMinScore D)).insertionSort fun left right => (compareHits left right).isLE

theorem tantivySearch_unique (D : IndexQuery K) (resourceTypes : List String)
    {docs : List (TextDoc K)} (h : (docs.map TextDoc.uniqueId).Nodup) :
    UniqueIds (tantivySearch D resourceTypes docs) := by
  have hperm := List.perm_insertionSort (fun left right => (compareHits left right).isLE)
    (((docs.filter (matchesTypes resourceTypes)).map fun doc =>
      (doc.uniqueId, doc.score + typeBonus D resourceTypes doc)).filter (reachesMinScore D))
  have hdocs : (docs.filter (matchesTypes resourceTypes)).Sublist docs := List.filter_sublist
  apply (hperm.map Prod.fst).nodup_iff.mpr
  apply List.Nodup.sublist (List.filter_sublist.map Prod.fst)
  rw [List.map_map]
  exact h.sublist (hdocs.map TextDoc.uniqueId)

/-- What the retrievers return to the query with this filter. -/
def queryFor (toLowercase : String → String) (D : IndexQuery K) (resourceTypes : List String) :
    Query K where
  primary := tantivySearch D resourceTypes D.primary
  primary_unique := tantivySearch_unique D resourceTypes D.primary_unique
  ngram := D.ngram.map fun docs => hitIds (tantivySearch D resourceTypes docs)
  fuzzy := D.fuzzy.map fun docs => hitIds (tantivySearch D resourceTypes docs)
  vector := D.vector
  sparse := D.sparse
  indicator := D.indicator.bind fun parents =>
    let ranking := parents.filter (entityAllowed toLowercase D resourceTypes)
    if ranking.isEmpty then none
    else some (ranking, D.indicatorParentScores (entityAllowed toLowercase D resourceTypes))
  rerank := D.rerank
  getEntityArchived := D.getEntityArchived
  resourceTypes := resourceTypes
  toLowercase := toLowercase

end Model

/-! ## What a filtered query finds -/

section Found
variable {K : Type*} [Field K] [LinearOrder K] {toLowercase : String → String}
  {D : IndexQuery K} {config : RankFusion.SearchConfig K} {l l' : List String} {id : String}

/-- The trimmed, lower-cased entries that are not blank. -/
def normalizedTypes (toLowercase : String → String) (resourceTypes : List String) : List String :=
  (normalizedResourceTypeFilter toLowercase resourceTypes).getD []

/-- The entity has a type, and the filter names it up to its spelling. -/
def HasType (toLowercase : String → String) (D : IndexQuery K) (l : List String)
    (id : String) : Prop :=
  ∃ resourceType, (D.getEntityArchived id).bind ArchivedEntity.resourceType = some resourceType ∧
    toLowercase (Text.trim resourceType) ∈ normalizedTypes toLowercase l

/-- The filter has the very term of the document, whose score is high enough with that term. -/
def Reaches (D : IndexQuery K) (l : List String) (doc : TextDoc K) : Prop :=
  (l = [] ∨ ∃ rt ∈ l, doc.resourceType = some rt) ∧
    ∀ minScore, D.minScore = some minScore → minScore ≤ doc.score + typeBonus D l doc

def textDocs (config : RankFusion.SearchConfig K) (D : IndexQuery K) : List (TextDoc K) :=
  if config.enableRrf then D.primary ++ D.ngram.getD [] ++ D.fuzzy.getD [] else D.primary

def TextFinds (config : RankFusion.SearchConfig K) (D : IndexQuery K) (l : List String)
    (id : String) : Prop :=
  ∃ doc ∈ textDocs config D, doc.uniqueId = id ∧ Reaches D l doc

/-- A retriever finds it that knows nothing of the terms. -/
def OtherFinds (config : RankFusion.SearchConfig K) (D : IndexQuery K) (id : String) : Prop :=
  config.enableRrf = true ∧
    (id ∈ D.vector.getD [] ∨ id ∈ D.sparse.getD [] ∨ id ∈ D.indicator.getD [])

/-- One of the retrievers of a query has this id in its ranking. -/
def Finds (config : RankFusion.SearchConfig K) (query : Query K) (id : String) : Prop :=
  id ∈ hitIds query.primary ∨ config.enableRrf = true ∧
    (id ∈ query.ngram.getD [] ∨ id ∈ query.fuzzy.getD [] ∨ id ∈ query.vector.getD [] ∨
      id ∈ query.sparse.getD [] ∨ id ∈ (query.indicator.map Prod.fst).getD [])

omit [Field K] in
theorem reachesMinScore_iff {hit : String × K} :
    reachesMinScore D hit = true ↔ ∀ minScore, D.minScore = some minScore → minScore ≤ hit.2 := by
  unfold reachesMinScore
  cases hmin : D.minScore with
  | none => simp
  | some minScore => simp

omit [Field K] [LinearOrder K] in
theorem matchesTypes_iff {doc : TextDoc K} :
    matchesTypes l doc = true ↔ l = [] ∨ ∃ rt ∈ l, doc.resourceType = some rt := by
  unfold matchesTypes
  rw [Bool.or_eq_true, List.isEmpty_iff, List.any_eq_true]
  simp only [beq_iff_eq]

theorem mem_tantivySearch {docs : List (TextDoc K)} :
    id ∈ hitIds (tantivySearch D l docs) ↔
      ∃ doc ∈ docs, doc.uniqueId = id ∧ Reaches D l doc := by
  unfold hitIds tantivySearch Reaches
  simp only [List.mem_map, List.mem_insertionSort, List.mem_filter, matchesTypes_iff,
    reachesMinScore_iff]
  constructor
  · intro h
    obtain ⟨hit, ⟨⟨doc, ⟨hdoc, htype⟩, rfl⟩, hscore⟩, hid⟩ := h
    exact ⟨doc, hdoc, hid, htype, hscore⟩
  · intro h
    obtain ⟨doc, hdoc, hid, htype, hscore⟩ := h
    exact ⟨_, ⟨⟨doc, ⟨hdoc, htype⟩, rfl⟩, hscore⟩, hid⟩

omit [Field K] [LinearOrder K] in
theorem mem_rankings {query : Query K} {n : ℕ} {ranking : Retriever × List String}
    (h : ranking ∈ rankings config query n) (hrrf : config.enableRrf = true)
    (hid : id ∈ ranking.2) : Finds config query id := by
  unfold rankings at h
  simp only [List.mem_append, List.mem_singleton, Option.mem_toList, Option.map_eq_some_iff] at h
  unfold Finds hitIds
  rcases h with ((((rfl | ⟨ids, hids, rfl⟩) | ⟨ids, hids, rfl⟩) | ⟨ids, hids, rfl⟩) |
    ⟨ids, hids, rfl⟩) | ⟨⟨ids, scores⟩, hids, rfl⟩
  · left
    rw [List.map_take] at hid
    exact List.mem_of_mem_take hid
  all_goals
    have hmem := List.mem_of_mem_take hid
    rw [hids]
    simp [hrrf, hmem]

theorem exists_of_mem_getD {α : Type*} {a : α} {found : Option (List α)} (h : a ∈ found.getD []) :
    ∃ l, found = some l ∧ a ∈ l := by
  cases found with
  | none => exact absurd h List.not_mem_nil
  | some l => exact ⟨l, rfl, h⟩

/-- The rankings one after the other. -/
def everyId (query : Query K) : List String :=
  hitIds query.primary ++ query.ngram.getD [] ++ query.fuzzy.getD [] ++ query.vector.getD [] ++
    query.sparse.getD [] ++ (query.indicator.map Prod.fst).getD []

omit [Field K] [LinearOrder K] in
theorem Finds.mem_everyId {query : Query K} (h : Finds config query id) :
    id ∈ everyId query := by
  unfold everyId
  simp only [List.mem_append]
  unfold Finds at h
  tauto

omit [Field K] [LinearOrder K] in
/-- A fetch limit that no ranking exceeds brings each id. -/
theorem Finds.exists_ranking {query : Query K} {n : ℕ} (h : Finds config query id)
    (hroom : (everyId query).length ≤ n) :
    ∃ ranking ∈ rankings config query n, id ∈ ranking.2.take (max n 1) := by
  have htake : ∀ (ids : List String) (m : ℕ), ids.length ≤ n → n ≤ m → id ∈ ids →
      id ∈ (ids.take m).take (max n 1) := by
    intro ids m hids hm hid
    rw [List.take_of_length_le (hids.trans hm)]
    rwa [List.take_of_length_le (hids.trans (Nat.le_max_left n 1))]
  unfold everyId at hroom
  simp only [List.length_append] at hroom
  unfold rankings
  rcases h with hid | ⟨-, hid | hid | hid | hid | hid⟩
  · refine ⟨(.bm25, (query.primary.take n).map Prod.fst), by simp, ?_⟩
    dsimp only
    rw [List.map_take]
    exact htake (hitIds query.primary) n (by omega) (Nat.le_refl n) hid
  · obtain ⟨ids, hids, hid⟩ := exists_of_mem_getD hid
    rw [hids] at hroom ⊢
    dsimp only [Option.getD_some] at hroom
    refine ⟨(.ngram, ids.take n), by simp, ?_⟩
    exact htake ids n (by omega) (Nat.le_refl n) hid
  · obtain ⟨ids, hids, hid⟩ := exists_of_mem_getD hid
    rw [hids] at hroom ⊢
    dsimp only [Option.getD_some] at hroom
    refine ⟨(.fuzzy, ids.take n), by simp, ?_⟩
    exact htake ids n (by omega) (Nat.le_refl n) hid
  · obtain ⟨ids, hids, hid⟩ := exists_of_mem_getD hid
    rw [hids] at hroom ⊢
    dsimp only [Option.getD_some] at hroom
    refine ⟨(.vector, ids.take (max config.vectorTopK n)), by simp, ?_⟩
    exact htake ids _ (by omega) (Nat.le_max_right _ n) hid
  · obtain ⟨ids, hids, hid⟩ := exists_of_mem_getD hid
    rw [hids] at hroom ⊢
    dsimp only [Option.getD_some] at hroom
    refine ⟨(.sparse, ids.take (max config.sparseTopK n)), by simp, ?_⟩
    exact htake ids _ (by omega) (Nat.le_max_right _ n) hid
  · obtain ⟨ids, hids, hid⟩ := exists_of_mem_getD hid
    obtain ⟨ranking, hranking, rfl⟩ := Option.map_eq_some_iff.mp hids
    rw [hranking] at hroom ⊢
    dsimp only [Option.map_some, Option.getD_some] at hroom
    refine ⟨(.indicator, ranking.1.take (max n 1)), by simp, ?_⟩
    exact htake ranking.1 _ (by omega) (Nat.le_max_left n 1) hid

theorem finds_of_fused {query : Query K} {n : ℕ}
    (h : id ∈ hitIds (buildFusedHits config query n).hits) : Finds config query id := by
  unfold buildFusedHits hitIds at h
  split at h
  · rename_i hrrf
    rw [mem_weightedRrf] at h
    obtain ⟨_, htaken, hid⟩ := h
    obtain ⟨ranking, hranking, rfl⟩ := List.mem_map.mp htaken
    exact mem_rankings hranking hrrf (List.mem_of_mem_take hid)
  · left
    rw [List.map_take] at h
    exact List.mem_of_mem_take h

theorem Finds.fused {query : Query K} {n : ℕ} (h : Finds config query id)
    (hroom : (everyId query).length ≤ n) :
    id ∈ hitIds (buildFusedHits config query n).hits := by
  have hprimary : query.primary.length ≤ n := by
    unfold everyId hitIds at hroom
    simp only [List.length_append, List.length_map] at hroom
    omega
  unfold buildFusedHits hitIds
  split
  · rw [mem_weightedRrf]
    obtain ⟨ranking, hranking, hid⟩ := h.exists_ranking hroom
    exact ⟨_, List.mem_map_of_mem hranking, hid⟩
  · rename_i hrrf
    rw [List.take_of_length_le hprimary]
    exact h.resolve_right fun hother => hrrf hother.1

/-- With a large enough limit the fused hits are what the retrievers find. -/
theorem exists_fused_iff {query : Query K} :
    (∃ n, id ∈ hitIds (buildFusedHits config query n).hits) ↔ Finds config query id := by
  constructor
  · intro h
    obtain ⟨n, hid⟩ := h
    exact finds_of_fused hid
  · intro h
    exact ⟨_, h.fused (Nat.le_refl _)⟩

omit [Field K] [LinearOrder K] in
theorem entityAllowed_iff (hfilter : l ≠ []) :
    entityAllowed toLowercase D l id = true ↔ HasType toLowercase D l id := by
  have hempty : l.isEmpty = false := List.isEmpty_eq_false_iff.mpr hfilter
  unfold entityAllowed HasType normalizedTypes normalizedResourceTypeFilter
  rw [hempty]
  cases htype : (D.getEntityArchived id).bind ArchivedEntity.resourceType with
  | none => simp [resourceTypeAllowedForSearch]
  | some resourceType => simp [resourceTypeAllowedForSearch]

omit [Field K] [LinearOrder K] in
theorem HasType.stored (h : HasType toLowercase D l id) :
    (D.getEntityArchived id).isSome = true := by
  obtain ⟨resourceType, htype, -⟩ := h
  obtain ⟨entity, hentity, -⟩ := Option.bind_eq_some_iff.mp htype
  exact Option.isSome_of_mem hentity

/-- The two stages of an entity that is let through. -/
theorem finds_queryFor (hallowed : entityAllowed toLowercase D l id = true) :
    Finds config (queryFor toLowercase D l) id ↔
      TextFinds config D l id ∨ OtherFinds config D id := by
  have htext : ∀ found : Option (List (TextDoc K)),
      id ∈ (found.map fun docs => hitIds (tantivySearch D l docs)).getD [] ↔
        ∃ doc ∈ found.getD [], doc.uniqueId = id ∧ Reaches D l doc := by
    intro found
    cases found with
    | none => simp
    | some docs => exact mem_tantivySearch
  have hindicator : id ∈ ((queryFor toLowercase D l).indicator.map Prod.fst).getD [] ↔
      id ∈ D.indicator.getD [] := by
    unfold queryFor
    cases hparents : D.indicator with
    | none => simp
    | some parents =>
        have hmem : id ∈ parents.filter (entityAllowed toLowercase D l) ↔ id ∈ parents := by
          rw [List.mem_filter]
          exact and_iff_left hallowed
        dsimp only [Option.bind_some, Option.getD_some]
        split
        · rename_i hempty
          rw [List.isEmpty_iff.mp hempty] at hmem
          simpa using hmem
        · exact hmem
  unfold Finds TextFinds OtherFinds textDocs
  rw [hindicator]
  cases hrrf : config.enableRrf with
  | false =>
      simp only [Bool.false_eq_true, false_and, or_false, if_false]
      exact mem_tantivySearch
  | true =>
      simp only [true_and, if_true, List.mem_append, or_and_right, exists_or, or_assoc]
      exact or_congr mem_tantivySearch (or_congr (htext D.ngram) (or_congr (htext D.fuzzy) Iff.rfl))

end Found

/-! ## The hits that are let through -/

section Reranked
variable {K : Type*} {config : RankFusion.SearchConfig K} {query : Query K}
  {hits : List (String × K)}

/-- The reranker scores each of the documents that it is given, or does not answer. -/
def ScoresEvery (rerank : List String → ℕ → Option (List (ℕ × K))) : Prop :=
  ∀ ids topN returned, ids.length ≤ topN → rerank ids topN = some returned →
    ∀ i < ids.length, i ∈ returned.map Prod.fst

theorem scoresEvery_rerank [LinearOrder K] {model : List String → Option (List (ℕ × K))}
    (hmodel : ∀ documents results, model documents = some results →
      (results.map Prod.fst).Perm (List.range documents.length)) :
    ScoresEvery (rerank model) := by
  intro ids topN returned hroom h
  cases hresults : model ids with
  | none =>
      unfold rerank at h
      rw [hresults] at h
      split at h
      · rename_i hempty
        intro i hi
        rw [List.isEmpty_iff.mp hempty] at hi
        exact absurd hi (Nat.not_lt_zero i)
      · contradiction
  | some results => exact rerank_indices hresults (hmodel ids results hresults) hroom h

theorem documentIds_length_le (config : RankFusion.SearchConfig K) (query : Query K)
    (hits : List (String × K)) : (documentIds config query hits).length ≤ topN config hits := by
  have hhead : (headIds config hits).length ≤ topN config hits := by
    unfold headIds hitIds
    rw [List.length_map, List.length_take]
    exact Nat.min_le_left _ _
  exact (List.length_filter_le _ _).trans hhead

/-- The reranking step finds no hit. -/
theorem rerankHits_subset (config : RankFusion.SearchConfig K) (query : Query K)
    (hits : List (String × K)) :
    hitIds (rerankHits config query hits) ⊆ hitIds hits := by
  intro id h
  rcases rerankHits_cases config query hits with ⟨-, -, returned, -, hhits⟩ | ⟨hhits, -⟩
  · rw [hhits, mem_foldl_pushUnseen, mem_rebuilt] at h
    rw [← headIds_append config hits, List.mem_append]
    refine (h.resolve_left List.not_mem_nil).imp_left ?_
    intro hscored
    obtain ⟨i, -, hi⟩ := hscored
    exact documentIds_subset config query hits (List.mem_of_getElem? hi)
  · rwa [hhits] at h

/-- The reranking step loses no hit with an entity. -/
theorem mem_rerankHits (hanswers : ScoresEvery query.rerank) {id : String}
    (hstored : stored query id = true) :
    id ∈ hitIds (rerankHits config query hits) ↔ id ∈ hitIds hits := by
  refine ⟨fun h => rerankHits_subset config query hits h, ?_⟩
  intro h
  rcases rerankHits_cases config query hits with ⟨-, -, returned, hrerank, hhits⟩ | ⟨hhits, -⟩
  · rw [hhits, mem_foldl_pushUnseen, mem_rebuilt]
    rw [← headIds_append config hits, List.mem_append] at h
    refine Or.inr (h.imp_left ?_)
    intro hhead
    have hdocument : id ∈ documentIds config query hits := List.mem_filter.mpr ⟨hhead, hstored⟩
    obtain ⟨i, hi, hget⟩ := List.mem_iff_getElem.mp hdocument
    have hscored := hanswers _ _ returned (documentIds_length_le config query hits) hrerank i hi
    exact ⟨i, hscored, List.getElem?_eq_some_iff.mpr ⟨hi, hget⟩⟩
  · rwa [hhits]

theorem ne_nil_iff_exists_id : hits ≠ [] ↔ ∃ id, id ∈ hitIds hits := by
  cases hits with
  | nil => simp [hitIds]
  | cons hit hits => simp [hitIds]

theorem rerankHits_nil (config : RankFusion.SearchConfig K) (query : Query K) :
    rerankHits config query [] = [] := by
  rcases rerankHits_cases config query [] with ⟨-, hne, -⟩ | ⟨hhits, -⟩
  · have hempty : documentIds config query [] = [] := by
      unfold documentIds headIds hitIds
      rw [List.take_nil, List.map_nil, List.filter_nil]
    exact absurd hempty hne
  · exact hhits

/-- The reranking step leaves a hit if there is one. -/
theorem rerankHits_ne_nil (hanswers : ScoresEvery query.rerank) (h : hits ≠ []) :
    rerankHits config query hits ≠ [] := by
  rcases rerankHits_cases config query hits with ⟨-, hne, -⟩ | ⟨hhits, -⟩
  · obtain ⟨id, hid⟩ := List.exists_mem_of_ne_nil _ hne
    have hstored : stored query id = true := (List.mem_filter.mp hid).2
    have hmem : id ∈ hitIds hits := by
      rw [← headIds_append config hits]
      exact List.mem_append_left _ (documentIds_subset config query hits hid)
    have hafter : id ∈ hitIds (rerankHits config query hits) :=
      (mem_rerankHits hanswers hstored).mpr hmem
    intro hnil
    rw [hnil] at hafter
    exact List.not_mem_nil hafter
  · rw [hhits]
    exact h

end Reranked

section Returned
variable {K : Type*} [Field K] [LinearOrder K] {toLowercase : String → String}
  {D : IndexQuery K} {config : RankFusion.SearchConfig K} {l l' : List String} {id : String}

/-- Some fetch limit brings this hit, and the filter lets it through. -/
def Returned (toLowercase : String → String) (config : RankFusion.SearchConfig K) (D : IndexQuery K)
    (l : List String) (id : String) : Prop :=
  ∃ n, id ∈ hitIds (allowedHits (queryFor toLowercase D l)
    (searchHits config (queryFor toLowercase D l) n))

/-- Some fetch limit brings this hit to the request without a filter. -/
def Candidate (toLowercase : String → String) (config : RankFusion.SearchConfig K) (D : IndexQuery K)
    (id : String) : Prop :=
  ∃ n, id ∈ hitIds (buildFusedHits config (queryFor toLowercase D []) n).hits

/-- The two filters find the same documents of the entities that only a text retriever finds and
whose types they name. -/
def SpelledAlike (toLowercase : String → String) (config : RankFusion.SearchConfig K) (D : IndexQuery K)
    (l l' : List String) : Prop :=
  ∀ id, HasType toLowercase D l id → ¬ OtherFinds config D id →
    (TextFinds config D l id ↔ TextFinds config D l' id)

def SameTypes (toLowercase : String → String) (l l' : List String) : Prop :=
  ∀ resourceType, resourceType ∈ normalizedTypes toLowercase l ↔
    resourceType ∈ normalizedTypes toLowercase l'

omit [Field K] [LinearOrder K] in
theorem SameTypes.hasType (h : SameTypes toLowercase l l') :
    HasType toLowercase D l id ↔ HasType toLowercase D l' id := by
  unfold HasType
  simp only [h _]

theorem candidate_iff :
    Candidate toLowercase config D id ↔ TextFinds config D [] id ∨ OtherFinds config D id :=
  exists_fused_iff.trans (finds_queryFor rfl)

theorem returned_iff (hanswers : ScoresEvery D.rerank) (hfilter : l ≠ []) :
    Returned toLowercase config D l id ↔
      HasType toLowercase D l id ∧ (TextFinds config D l id ∨ OtherFinds config D id) := by
  have hmem : ∀ n, id ∈ hitIds (allowedHits (queryFor toLowercase D l)
        (searchHits config (queryFor toLowercase D l) n)) ↔
      HasType toLowercase D l id ∧
        id ∈ hitIds (searchHits config (queryFor toLowercase D l) n) := by
    intro n
    rw [← entityAllowed_iff hfilter]
    unfold hitIds allowedHits
    simp only [List.mem_map, List.mem_filter]
    constructor
    · intro h
      obtain ⟨hit, ⟨hhit, hallowed⟩, rfl⟩ := h
      exact ⟨hallowed, hit, hhit, rfl⟩
    · intro h
      obtain ⟨hallowed, hit, hhit, rfl⟩ := h
      exact ⟨hit, ⟨hhit, hallowed⟩, rfl⟩
  unfold Returned
  simp only [hmem, exists_and_left]
  apply and_congr_right
  intro htype
  have hfused : ∀ n, id ∈ hitIds (searchHits config (queryFor toLowercase D l) n) ↔
      id ∈ hitIds (buildFusedHits config (queryFor toLowercase D l) n).hits :=
    fun _ => mem_rerankHits hanswers htype.stored
  simp only [hfused]
  exact exists_fused_iff.trans (finds_queryFor ((entityAllowed_iff hfilter).mpr htype))

/-- Without a filter something is returned if there is something to find. -/
theorem returned_nil_iff (hanswers : ScoresEvery D.rerank) :
    (∃ id, Returned toLowercase config D [] id) ↔
      ∃ id, TextFinds config D [] id ∨ OtherFinds config D id := by
  have hall : ∀ hits, allowedHits (queryFor toLowercase D []) hits = hits :=
    fun hits => List.filter_eq_self.mpr fun _ _ => rfl
  have hcandidate : (∃ id, TextFinds config D [] id ∨ OtherFinds config D id) ↔
      ∃ id, Candidate toLowercase config D id := exists_congr fun _ => candidate_iff.symm
  rw [hcandidate]
  unfold Returned Candidate
  simp only [hall]
  rw [exists_comm, exists_comm (α := String)]
  apply exists_congr
  intro n
  rw [← ne_nil_iff_exists_id, ← ne_nil_iff_exists_id]
  constructor
  · intro h hnil
    apply h
    unfold searchHits
    rw [hnil]
    exact rerankHits_nil config _
  · exact rerankHits_ne_nil hanswers

/-- Every page shows hits that are returned. -/
theorem returned_of_shown {adjustScore : String → K → K} {detail : DetailLevel}
    {limit offset : ℕ} {page : SearchPage K} {a : SearchCandidate K}
    (h : search config (queryFor toLowercase D l) adjustScore detail (some limit) offset =
      .ok page)
    (ha : a ∈ page.results) : Returned toLowercase config D l a.uniqueId := by
  obtain ⟨k, hit, -, -, hhit, rfl⟩ := exists_of_mem h ha
  have hranked := List.mem_of_getElem? hhit
  unfold ranked at hranked
  have hconsidered := considered_sublist.subset ((List.mem_insertionSort _).mp hranked)
  exact ⟨_, List.mem_map_of_mem hconsidered⟩

/-- At most as many hits are let through as the retrievers find. -/
theorem totalFound_le (config : RankFusion.SearchConfig K) (query : Query K) (limit offset : ℕ) :
    totalFound config query limit offset ≤ (everyId query).length := by
  have hunique : (hitIds (allowedHits query (fetchedHits config query limit offset))).Nodup :=
    (searchHits_unique config query _).sublist (List.filter_sublist.map Prod.fst)
  have hsubset : hitIds (allowedHits query (fetchedHits config query limit offset)) ⊆
      everyId query := by
    intro id hid
    have hfetched := List.map_subset Prod.fst List.filter_sublist.subset hid
    exact (finds_of_fused (rerankHits_subset config query _ hfetched)).mem_everyId
  have hlength := (List.subperm_of_subset hunique hsubset).length_le
  unfold hitIds at hlength
  rwa [List.length_map] at hlength

/-- A page shows them all if it has room for all that the retrievers find. -/
theorem shown_of_returned {adjustScore : String → K → K} {limit : ℕ} {page : SearchPage K}
    (hanswers : ScoresEvery D.rerank) (hfilter : l ≠ [])
    (h : search config (queryFor toLowercase D l) adjustScore .standard (some limit) 0 = .ok page)
    (hlimit : (everyId (queryFor toLowercase D l)).length ≤ pageLimit config (some limit))
    (hfetch : (everyId (queryFor toLowercase D l)).length ≤ maxFetchLimit)
    (hreturned : Returned toLowercase config D l id) :
    ∃ a ∈ page.results, a.uniqueId = id := by
  obtain ⟨htype, hfound⟩ := (returned_iff hanswers hfilter).mp hreturned
  have hallowed := (entityAllowed_iff hfilter).mpr htype
  have hroom : (everyId (queryFor toLowercase D l)).length ≤
      fetchLimit config (pageLimit config (some limit) + 0) := by
    have hfactor : 1 ≤ max config.rrfOverfetch 1 := Nat.le_max_right _ 1
    have hmul := Nat.le_mul_of_pos_right (pageLimit config (some limit)) hfactor
    exact Nat.le_min.mpr ⟨hlimit.trans hmul, hfetch⟩
  have hfused := ((finds_queryFor hallowed).mpr hfound).fused hroom
  have hstored : stored (queryFor toLowercase D l) id = true := htype.stored
  have hhits : id ∈ hitIds (fetchedHits config (queryFor toLowercase D l) limit 0) :=
    (mem_rerankHits hanswers hstored).mpr hfused
  obtain ⟨hit, hhit, rfl⟩ := List.mem_map.mp hhits
  have hmem : hit ∈ allowedHits (queryFor toLowercase D l)
      (fetchedHits config (queryFor toLowercase D l) limit 0) :=
    List.mem_filter.mpr ⟨hhit, hallowed⟩
  -- all that are let through find room on the page, so none is cut off
  have htotal := (totalFound_le config (queryFor toLowercase D l) limit 0).trans hlimit
  have hlength := le_considered_length config (queryFor toLowercase D l) limit 0
  rw [Nat.add_zero, Nat.min_eq_right htotal] at hlength
  rw [← considered_sublist.eq_of_length_le hlength] at hmem
  obtain ⟨k, hk⟩ := List.mem_iff_getElem?.mp
    ((List.mem_insertionSort (Before config (queryFor toLowercase D l) adjustScore)).mpr hmem)
  obtain ⟨hlt, -⟩ := List.getElem?_eq_some_iff.mp hk
  rw [List.length_insertionSort] at hlt
  have hplace : k < 0 + pageLimit config (some limit) := by
    have hfew := considered_length_le config (queryFor toLowercase D l) limit 0
    omega
  exact ⟨_, mem_of_ranked h (Nat.zero_le k) hplace hk, rfl⟩

/-- The filter selects from the candidates exactly where it finds what the query without it
finds. -/
theorem returned_exact_iff (hanswers : ScoresEvery D.rerank) (hfilter : l ≠ []) :
    (∀ id, Returned toLowercase config D l id ↔
        Candidate toLowercase config D id ∧ HasType toLowercase D l id) ↔
      SpelledAlike toLowercase config D l [] := by
  unfold SpelledAlike
  simp only [returned_iff hanswers hfilter, candidate_iff]
  apply forall_congr'
  intro id
  tauto

/-- What a filter with an entry has in common with one that names the same types. -/
theorem returned_same_iff (hanswers : ScoresEvery D.rerank) (hfilter : l ≠ [])
    (hsame : SameTypes toLowercase l l') :
    (∀ id, Returned toLowercase config D l id ↔ Returned toLowercase config D l' id) ↔
      (l' = [] → ∀ id, ¬ (TextFinds config D [] id ∨ OtherFinds config D id)) ∧
        SpelledAlike toLowercase config D l l' := by
  by_cases hfilter' : l' = []
  · -- the entries of the first filter are blank
    have hblank : ∀ id, ¬ HasType toLowercase D l id := by
      intro id htype
      rw [hsame.hasType, hfilter'] at htype
      obtain ⟨resourceType, -, hmem⟩ := htype
      exact List.not_mem_nil hmem
    have hnone : ∀ id, ¬ Returned toLowercase config D l id :=
      fun id h => hblank id ((returned_iff hanswers hfilter).mp h).1
    have hspelled : SpelledAlike toLowercase config D l l' :=
      fun id htype => absurd htype (hblank id)
    rw [and_iff_left hspelled, hfilter']
    simp only [hnone, false_iff, forall_const]
    rw [← not_exists, ← not_exists]
    exact not_congr (returned_nil_iff hanswers)
  · unfold SpelledAlike
    simp only [returned_iff hanswers hfilter, returned_iff hanswers hfilter', hfilter',
      ← hsame.hasType, false_implies, true_and]
    apply forall_congr'
    intro id
    tauto

end Returned

/-! ## The whole answer -/

section Answer
variable {K : Type*} [Field K] [LinearOrder K] {toLowercase : String → String}
  {D : IndexQuery K} {config : RankFusion.SearchConfig K} {adjustScore : String → K → K}
  {detail : DetailLevel} {requested : Option ℕ} {offset : ℕ} {l l' : List String}

/-- `search` looks at the filter for the types of the hits only. -/
theorem search_retyped {query : Query K} (hallowed :
      ∀ id, allowedHit { query with resourceTypes := l' } id = allowedHit query id) :
    search config { query with resourceTypes := l' } adjustScore detail requested offset =
      search config query adjustScore detail requested offset := by
  have hscan : scanHit (K := K) { query with resourceTypes := l' } = scanHit query := by
    funext indicatorParentScores adjustScore baseLimit scan hit
    unfold scanHit
    rw [hallowed]
    rfl
  have hbundle : ∀ n, buildFusedHits config { query with resourceTypes := l' } n =
      buildFusedHits config query n := fun _ => rfl
  have hrerank : ∀ hits, rerankHits config { query with resourceTypes := l' } hits =
      rerankHits config query hits := fun _ => rfl
  unfold search
  simp only [hscan, hbundle, hrerank]

theorem queryFor_perm (toLowercase : String → String) (D : IndexQuery K) (h : l.Perm l') :
    queryFor toLowercase D l' = { queryFor toLowercase D l with resourceTypes := l' } ∧
      ∀ id, entityAllowed toLowercase D l' id = entityAllowed toLowercase D l id := by
  have hempty : l'.isEmpty = l.isEmpty := by
    rw [Bool.eq_iff_iff, List.isEmpty_iff_length_eq_zero, List.isEmpty_iff_length_eq_zero,
      h.length_eq]
  have hallowed : entityAllowed toLowercase D l' = entityAllowed toLowercase D l := by
    funext id
    have hmem := h.map fun rt => toLowercase (Text.trim rt)
    have hfilter := hmem.filter fun rt => !rt.isEmpty
    unfold entityAllowed normalizedResourceTypeFilter
    rw [hempty]
    cases l.isEmpty with
    | true => rfl
    | false =>
        cases (D.getEntityArchived id).bind ArchivedEntity.resourceType with
        | none => rfl
        | some resourceType =>
            exact (hfilter.contains_eq).symm
  have hsearch : tantivySearch D l' = tantivySearch D l := by
    have hmatches : matchesTypes (K := K) l' = matchesTypes l := by
      funext doc
      unfold matchesTypes
      rw [hempty, h.any_eq]
    have hbonus : typeBonus D l' = typeBonus D l := by
      funext doc
      unfold typeBonus
      cases doc.resourceType with
      | none => rfl
      | some resourceType => dsimp only; rw [h.count_eq]
    funext docs
    unfold tantivySearch
    rw [hmatches, hbonus]
  refine ⟨?_, fun id => congrFun hallowed id⟩
  unfold queryFor
  simp only [hsearch, hallowed]

theorem search_perm (h : l.Perm l') :
    search config (queryFor toLowercase D l) adjustScore detail requested offset =
      search config (queryFor toLowercase D l') adjustScore detail requested offset := by
  obtain ⟨hquery, hallowed⟩ := queryFor_perm toLowercase D h
  rw [hquery]
  symm
  apply search_retyped
  intro id
  rw [← hquery]
  exact hallowed id

/-- A query that matches one document, with a term that scores one. -/
def oneDocument (resourceType : String) (minScore : K) : IndexQuery K where
  primary := [⟨"model.a", some resourceType, 0⟩]
  primary_unique := List.nodup_singleton _
  ngram := none
  fuzzy := none
  vector := none
  sparse := none
  indicator := none
  indicatorParentScores := fun _ _ => none
  rerank := fun _ _ => none
  getEntityArchived := fun _ => none
  minScore := some minScore
  typeScore := fun _ => 1

/-- Full-text search alone. -/
def plainConfig : RankFusion.SearchConfig K where
  defaultLimit := 50
  maxPageSize := 0
  maxOffset := 0
  enableRrf := false
  rrfK := 0
  rrfOverfetch := 1
  vectorTopK := 0
  sparseTopK := 0
  enableReranker := false
  rerankTopN := 0
  personaWeights := ⟨1, 1, 1, 1, 1, 1⟩

/-- The answer tells a total if there is a hit. -/
theorem plain_total (query : Query K) (adjustScore : String → K → K) :
    ∃ page, search plainConfig query adjustScore .standard none 0 = .ok page ∧
      (page.totalAvailable.isSome = true ↔ query.primary ≠ []) := by
  have hhits : ∀ n, (buildFusedHits plainConfig query n).hits = query.primary.take n := fun _ => rfl
  have hrerank : ∀ hits, rerankHits plainConfig query hits = hits := fun _ => rfl
  have hlimit : fetchLimit (@plainConfig K _) (pageLimit (@plainConfig K _) none + 0) = 50 := rfl
  have hoffset : ¬ (plainConfig (K := K)).maxOffset < 0 := Nat.not_lt_zero _
  unfold search
  rw [if_neg hoffset]
  dsimp only
  rw [hrerank, hhits, hlimit]
  cases hprimary : query.primary with
  | nil => exact ⟨_, rfl, by simp⟩
  | cons hit hits => exact ⟨_, rfl, by simp⟩

/-- The document is found if its term is in the filter often enough. -/
theorem oneDocument_found_iff [IsStrictOrderedRing K] (toLowercase : String → String)
    {resourceType : String} {minScore : K} (hpos : 0 < minScore) :
    (queryFor toLowercase (oneDocument resourceType minScore) l).primary ≠ [] ↔
      minScore ≤ l.count resourceType := by
  have hreaches : Reaches (oneDocument resourceType minScore) l ⟨"model.a", some resourceType, 0⟩ ↔
      minScore ≤ l.count resourceType := by
    have hscore : (0 : K) + typeBonus (oneDocument resourceType minScore) l
        ⟨"model.a", some resourceType, 0⟩ = l.count resourceType := by
      unfold typeBonus oneDocument
      dsimp only
      rw [mul_one, zero_add]
    have hmin : (∀ min, (oneDocument resourceType minScore).minScore = some min →
        min ≤ (l.count resourceType : K)) ↔ minScore ≤ l.count resourceType := by
      unfold oneDocument
      simp
    unfold Reaches
    dsimp only
    rw [hscore, hmin]
    apply and_iff_right_of_imp
    intro hle
    have hcount : (0 : K) < l.count resourceType := hpos.trans_le hle
    exact Or.inr ⟨resourceType, List.count_pos_iff.mp (Nat.cast_pos.mp hcount), rfl⟩
  rw [ne_nil_iff_exists_id, ← hreaches]
  constructor
  · intro h
    obtain ⟨id, hid⟩ := h
    obtain ⟨doc, hdoc, -, hfound⟩ := mem_tantivySearch.mp hid
    rwa [List.mem_singleton.mp hdoc] at hfound
  · intro h
    exact ⟨"model.a", mem_tantivySearch.mpr ⟨_, List.mem_singleton_self _, rfl, h⟩⟩

/-- Two filters always get the same answers exactly if they have the same entries, as often. -/
theorem search_same_iff [IsStrictOrderedRing K] (toLowercase : String → String)
    (l l' : List String) :
    (∀ (D : IndexQuery K) config adjustScore detail requested offset,
        search config (queryFor toLowercase D l) adjustScore detail requested offset =
          search config (queryFor toLowercase D l') adjustScore detail requested offset) ↔
      l.Perm l' := by
  constructor
  · intro hsame
    have htotal : ∀ (t : String) (m : K), 0 < m → (m ≤ l.count t ↔ m ≤ l'.count t) := by
      intro t m hpos
      obtain ⟨page, hpage, hfound⟩ :=
        plain_total (queryFor toLowercase (oneDocument t m) l) fun _ score => score
      obtain ⟨page', hpage', hfound'⟩ :=
        plain_total (queryFor toLowercase (oneDocument t m) l') fun _ score => score
      rw [hsame, hpage'] at hpage
      rw [← oneDocument_found_iff toLowercase hpos, ← oneDocument_found_iff toLowercase hpos,
        ← hfound, ← hfound', Except.ok.inj hpage]
    rw [List.perm_iff_count]
    intro t
    have hle : ∀ n : ℕ, n ≤ l.count t ↔ n ≤ l'.count t := by
      intro n
      cases n with
      | zero => simp
      | succ n =>
          have h := htotal t ((n + 1 : ℕ) : K) (Nat.cast_pos.mpr n.succ_pos)
          rwa [Nat.cast_le, Nat.cast_le] at h
    exact Nat.le_antisymm ((hle _).mp (Nat.le_refl _)) ((hle _).mpr (Nat.le_refl _))
  · intro h D config adjustScore detail requested offset
    exact search_perm h

end Answer

/-- A filter selects from the candidates, and filters for the same types give the same hits,
exactly where the terms find the documents that no other retriever finds. All answers are the
same exactly for the same entries. -/
theorem resource_filter_iff {K : Type*} [Field K] [LinearOrder K] [IsStrictOrderedRing K]
    (toLowercase : String → String) (config : RankFusion.SearchConfig K) (D : IndexQuery K)
    (l l' : List String) (hanswers : ScoresEvery D.rerank) (hfilter : l ≠ [])
    (hsame : SameTypes toLowercase l l') :
    ((∀ id, Returned toLowercase config D l id ↔
          Candidate toLowercase config D id ∧ HasType toLowercase D l id) ↔
        SpelledAlike toLowercase config D l []) ∧
      ((∀ id, Returned toLowercase config D l id ↔ Returned toLowercase config D l' id) ↔
        (l' = [] → ∀ id, ¬ (TextFinds config D [] id ∨ OtherFinds config D id)) ∧
          SpelledAlike toLowercase config D l l') ∧
      ((∀ (D : IndexQuery K) config adjustScore detail requested offset,
          search config (queryFor toLowercase D l) adjustScore detail requested offset =
            search config (queryFor toLowercase D l') adjustScore detail requested offset) ↔
        l.Perm l') :=
  ⟨returned_exact_iff hanswers hfilter, returned_same_iff hanswers hfilter hsame,
    search_same_iff toLowercase l l'⟩

section Models

/-- One model, which full-text search finds. -/
def oneModel : IndexQuery ℚ where
  primary := [⟨"model.a", some "model", 3⟩]
  primary_unique := by decide
  ngram := none
  fuzzy := none
  vector := none
  sparse := none
  indicator := none
  indicatorParentScores := fun _ _ => none
  rerank := rerank fun documents => some (documents.zipIdx.map fun document => (document.2, 1))
  getEntityArchived := fun id => if id = "model.a" then some ⟨some "model"⟩ else none
  minScore := none
  typeScore := fun _ => 1

theorem oneModel_scoresEvery : ScoresEvery oneModel.rerank := by
  apply scoresEvery_rerank
  intro documents results hresults
  cases hresults
  rw [List.map_map, List.range_eq_range']
  exact List.Perm.of_eq (List.zipIdx_map_snd 0 documents)

theorem model_sameTypes : SameTypes Text.toAsciiLowercase ["model"] [" Model"] := by
  have hmodel : normalizedTypes Text.toAsciiLowercase ["model"] = ["model"] := by decide
  have hspelled : normalizedTypes Text.toAsciiLowercase [" Model"] = ["model"] := by decide
  intro resourceType
  rw [hmodel, hspelled]

theorem resource_filter_oneModel :
    ((∀ id, Returned Text.toAsciiLowercase defaultConfig oneModel ["model"] id ↔
          Candidate Text.toAsciiLowercase defaultConfig oneModel id ∧
            HasType Text.toAsciiLowercase oneModel ["model"] id) ↔
        SpelledAlike Text.toAsciiLowercase defaultConfig oneModel ["model"] []) ∧
      ((∀ id, Returned Text.toAsciiLowercase defaultConfig oneModel ["model"] id ↔
          Returned Text.toAsciiLowercase defaultConfig oneModel [" Model"] id) ↔
        ([" Model"] = [] → ∀ id, ¬ (TextFinds defaultConfig oneModel [] id ∨
          OtherFinds defaultConfig oneModel id)) ∧
          SpelledAlike Text.toAsciiLowercase defaultConfig oneModel ["model"] [" Model"]) ∧
      ((∀ (D : IndexQuery ℚ) config adjustScore detail requested offset,
          search config (queryFor Text.toAsciiLowercase D ["model"]) adjustScore detail requested
              offset =
            search config (queryFor Text.toAsciiLowercase D [" Model"]) adjustScore detail
              requested offset) ↔
        ["model"].Perm [" Model"]) :=
  resource_filter_iff Text.toAsciiLowercase defaultConfig oneModel ["model"] [" Model"]
    oneModel_scoresEvery (List.cons_ne_nil _ _) model_sameTypes

/-- The other spelling finds nothing. -/
theorem spelled_model_lost :
    ¬ ∀ (D : IndexQuery ℚ) (l l' : List String), ScoresEvery D.rerank →
      SameTypes Text.toAsciiLowercase l l' →
        search defaultConfig (queryFor Text.toAsciiLowercase D l) (fun _ score => score) .standard
            none 0 =
          search defaultConfig (queryFor Text.toAsciiLowercase D l') (fun _ score => score)
            .standard none 0 := by
  intro h
  have hsame := congrArg (fun page => page.toOption.map SearchPage.count)
    (h oneModel ["model"] [" Model"] oneModel_scoresEvery model_sameTypes)
  have hmodel : (search defaultConfig (queryFor Text.toAsciiLowercase oneModel ["model"])
      (fun _ score => score) .standard none 0).toOption.map SearchPage.count = some 1 := by
    decide
  have hspelled : (search defaultConfig (queryFor Text.toAsciiLowercase oneModel [" Model"])
      (fun _ score => score) .standard none 0).toOption.map SearchPage.count = some 0 := by
    decide
  rw [hmodel, hspelled] at hsame
  contradiction

end Models

end DbtNova.ResourceFilter
