import DbtNova.IndicatorRows
import DbtNova.SearchPages

/-!
# Reranking

The reranker scores the documents of the first hits. `search` keeps of these hits the ones it
scored; `search_indicator` keeps them all. What the reranker answers is arbitrary here, and
`rerank` of `embeddings/mod.rs` is one such answer.
-/
namespace DbtNova.Reranking
open RankFusion IndicatorRows

section Model
variable {K : Type*} [LinearOrder K]

/-- The better score first, then the smaller index. -/
def scoreDescCmp (a b : ℕ × K) : Ordering := (compare b.2 a.2).then (compare a.1 b.1)

/-- `Reranker::rerank`. The model scores some of the documents, or fails. -/
def rerank (model : List String → Option (List (ℕ × K))) (documents : List String) (topN : ℕ) :
    Option (List (ℕ × K)) :=
  if documents.isEmpty then some []
  else (model documents).map fun results => (StableSort.sort scoreDescCmp results).take topN

end Model

/-! ## The hits behind the reranker -/

section Hits
variable {K : Type*} {config : RankFusion.SearchConfig K} {query : Query K}
  {hits : List (String × K)}

def hitIds (hits : List (String × K)) : List String := hits.map Prod.fst

def topN (config : RankFusion.SearchConfig K) (hits : List (String × K)) : ℕ :=
  min config.rerankTopN hits.length

def headIds (config : RankFusion.SearchConfig K) (hits : List (String × K)) : List String :=
  hitIds (hits.take (topN config hits))

def stored (query : Query K) (id : String) : Bool := (query.getEntityArchived id).isSome

/-- The hits that get a document. -/
def documentIds (config : RankFusion.SearchConfig K) (query : Query K) (hits : List (String × K)) :
    List String :=
  (headIds config hits).filter (stored query)

/-- Where the reranker answers, every one of the first hits has an entity and a score. -/
def ScoresAll (config : RankFusion.SearchConfig K) (query : Query K)
    (hits : List (String × K)) : Prop :=
  config.enableReranker = true → documentIds config query hits ≠ [] →
    ∀ returned, query.rerank (documentIds config query hits) (topN config hits) = some returned →
      (∀ id ∈ headIds config hits, stored query id = true) ∧
        ∀ i < (headIds config hits).length, i ∈ returned.map Prod.fst

theorem mem_foldl_pushUnseen (found reordered : List (String × K)) (id : String) :
    id ∈ hitIds (found.foldl pushUnseen reordered) ↔ id ∈ hitIds reordered ∨ id ∈ hitIds found := by
  unfold hitIds
  induction found generalizing reordered with
  | nil => simp
  | cons hit found ih =>
      rw [List.foldl_cons, ih, pushUnseen_ids, List.map_cons, List.mem_cons]
      split
      · rename_i hseen
        constructor
        · intro h
          exact h.imp_right Or.inr
        · intro h
          rcases h with hold | rfl | hnew
          · exact Or.inl hold
          · exact Or.inl hseen
          · exact Or.inr hnew
      · rw [List.mem_append, List.mem_singleton, or_assoc]

/-- The scored documents and the hits behind the first ones. -/
def rebuilt (config : RankFusion.SearchConfig K) (query : Query K) (hits : List (String × K))
    (returned : List (ℕ × K)) : List (String × K) :=
  (returned.filterMap fun ranked =>
    (documentIds config query hits)[ranked.1]?.map fun id => (id, ranked.2)) ++
      hits.drop (topN config hits)

/-- What the reranking step leaves. -/
theorem rerankHits_cases (config : RankFusion.SearchConfig K) (query : Query K)
    (hits : List (String × K)) :
    (config.enableReranker = true ∧ documentIds config query hits ≠ [] ∧
        ∃ returned,
          query.rerank (documentIds config query hits) (topN config hits) = some returned ∧
          rerankHits config query hits =
            (rebuilt config query hits returned).foldl pushUnseen []) ∨
      (rerankHits config query hits = hits ∧ (config.enableReranker = true →
        documentIds config query hits ≠ [] →
        query.rerank (documentIds config query hits) (topN config hits) = none)) := by
  cases henabled : config.enableReranker with
  | false =>
      refine Or.inr ⟨?_, fun h => absurd h Bool.false_ne_true⟩
      unfold rerankHits
      rw [henabled]
      rfl
  | true =>
      unfold rerankHits
      rw [henabled, if_pos rfl]
      by_cases hempty : documentIds config query hits = []
      · exact Or.inr ⟨if_pos (List.isEmpty_iff.mpr hempty), fun _ h => absurd hempty h⟩
      · have hdocuments : ¬ (documentIds config query hits).isEmpty = true :=
          fun h => hempty (List.isEmpty_iff.mp h)
        cases hrerank : query.rerank (documentIds config query hits) (topN config hits) with
        | none =>
            refine Or.inr ⟨(if_neg hdocuments).trans ?_, fun _ _ => rfl⟩
            split
            · rfl
            · rename_i heq
              exact absurd (heq.symm.trans hrerank) (Option.some_ne_none _)
        | some returned =>
            refine Or.inl ⟨rfl, hempty, returned, rfl, (if_neg hdocuments).trans ?_⟩
            split
            · rename_i heq
              exact absurd (hrerank.symm.trans heq) (Option.some_ne_none _)
            · rename_i heq
              rw [← Option.some.inj (heq.symm.trans hrerank)]
              rfl

theorem headIds_append (config : RankFusion.SearchConfig K) (hits : List (String × K)) :
    headIds config hits ++ hitIds (hits.drop (topN config hits)) = hitIds hits := by
  unfold headIds hitIds
  rw [← List.map_append, List.take_append_drop]

theorem mem_rebuilt {returned : List (ℕ × K)} {id : String} :
    id ∈ hitIds (rebuilt config query hits returned) ↔
      (∃ i ∈ returned.map Prod.fst, (documentIds config query hits)[i]? = some id) ∨
        id ∈ hitIds (hits.drop (topN config hits)) := by
  unfold rebuilt hitIds
  rw [List.map_append, List.mem_append]
  refine or_congr_left ?_
  simp only [List.mem_map, List.mem_filterMap, Option.map_eq_some_iff]
  constructor
  · intro h
    obtain ⟨hit, ⟨ranked, hranked, id', hid', rfl⟩, rfl⟩ := h
    exact ⟨ranked.1, ⟨ranked, hranked, rfl⟩, hid'⟩
  · intro h
    obtain ⟨i, ⟨ranked, hranked, rfl⟩, hid⟩ := h
    exact ⟨(id, ranked.2), ⟨ranked, hranked, id, hid, rfl⟩, rfl⟩

theorem documentIds_subset (config : RankFusion.SearchConfig K) (query : Query K)
    (hits : List (String × K)) : documentIds config query hits ⊆ headIds config hits :=
  fun _ hid => (List.mem_filter.mp hid).1

/-- The first hits are all scored where they all have a document and its index comes back. -/
theorem headIds_scored_iff (hunique : UniqueIds hits) (returned : List (ℕ × K)) :
    (∀ id ∈ headIds config hits, ∃ i ∈ returned.map Prod.fst,
        (documentIds config query hits)[i]? = some id) ↔
      (∀ id ∈ headIds config hits, stored query id = true) ∧
        ∀ i < (headIds config hits).length, i ∈ returned.map Prod.fst := by
  have hnodup : (headIds config hits).Nodup := by
    have hall : (hitIds hits).Nodup := hunique
    rw [← headIds_append config hits] at hall
    exact hall.of_append_left
  have hdocuments : (∀ id ∈ headIds config hits, stored query id = true) →
      documentIds config query hits = headIds config hits := List.filter_eq_self.mpr
  constructor
  · intro h
    have hstored : ∀ id ∈ headIds config hits, stored query id = true := by
      intro id hid
      obtain ⟨i, -, hi⟩ := h id hid
      exact (List.mem_filter.mp (List.mem_of_getElem? hi)).2
    refine ⟨hstored, ?_⟩
    intro i hi
    obtain ⟨j, hj, hid⟩ := h (headIds config hits)[i] (List.getElem_mem hi)
    rw [hdocuments hstored] at hid
    obtain ⟨hlt, hsame⟩ := List.getElem?_eq_some_iff.mp hid
    rwa [(List.Nodup.getElem_inj_iff hnodup).mp hsame] at hj
  · intro h id hid
    obtain ⟨hstored, hindices⟩ := h
    obtain ⟨i, hi, rfl⟩ := List.mem_iff_getElem.mp hid
    refine ⟨i, hindices i hi, ?_⟩
    rw [hdocuments hstored]
    exact List.getElem?_eq_getElem hi

/-- The hits behind the step are those before it where the reranker scores all it is given, and
it is given all of the first hits. -/
theorem rerankHits_perm_iff (hunique : UniqueIds hits) :
    (hitIds (rerankHits config query hits)).Perm (hitIds hits) ↔
      ScoresAll config query hits := by
  rcases rerankHits_cases config query hits with ⟨henabled, hne, returned, hrerank, hhits⟩ | hkept
  · have hall : (hitIds hits).Nodup := hunique
    have hafter : (hitIds (rerankHits config query hits)).Nodup :=
      hunique.rerankHits config query
    have hmem : ∀ id, id ∈ hitIds (rerankHits config query hits) ↔
        (∃ i ∈ returned.map Prod.fst, (documentIds config query hits)[i]? = some id) ∨
          id ∈ hitIds (hits.drop (topN config hits)) := by
      intro id
      rw [hhits, mem_foldl_pushUnseen, mem_rebuilt]
      exact or_iff_right List.not_mem_nil
    have hscores : ScoresAll config query hits ↔
        ∀ id ∈ headIds config hits, ∃ i ∈ returned.map Prod.fst,
          (documentIds config query hits)[i]? = some id := by
      rw [headIds_scored_iff hunique]
      constructor
      · intro h
        exact h henabled hne returned hrerank
      · intro h _ _ returned' hreturned'
        rw [hrerank] at hreturned'
        rwa [← Option.some.inj hreturned']
    rw [hscores, List.perm_ext_iff_of_nodup hafter hall]
    rw [← headIds_append config hits] at hall ⊢
    have hdisjoint := List.disjoint_of_nodup_append hall
    constructor
    · intro h id hid
      have hfound := (hmem id).mp ((h id).mpr (List.mem_append_left _ hid))
      exact hfound.resolve_right (hdisjoint hid)
    · intro h id
      rw [hmem, List.mem_append]
      refine or_congr_left ?_
      constructor
      · intro hscored
        obtain ⟨i, -, hi⟩ := hscored
        exact documentIds_subset config query hits (List.mem_of_getElem? hi)
      · exact h id
  · obtain ⟨hsame, hnone⟩ := hkept
    rw [hsame]
    refine iff_of_true (List.Perm.refl _) ?_
    intro henabled hne returned hrerank
    rw [hnone henabled hne] at hrerank
    contradiction

end Hits

section Scored
variable {K : Type*} [LinearOrder K]

/-- A model that scores every document once leaves none out. -/
theorem rerank_indices {model : List String → Option (List (ℕ × K))} {documents : List String}
    {results returned : List (ℕ × K)} {topN : ℕ} (hmodel : model documents = some results)
    (hall : (results.map Prod.fst).Perm (List.range documents.length))
    (hroom : documents.length ≤ topN) (h : rerank model documents topN = some returned) :
    ∀ i < documents.length, i ∈ returned.map Prod.fst := by
  intro i hi
  unfold rerank at h
  split at h
  · rename_i hempty
    rw [List.isEmpty_iff.mp hempty] at hi
    contradiction
  · rw [hmodel] at h
    cases h
    have hsorted : (StableSort.sort scoreDescCmp results).Perm results :=
      StableSort.sort_perm results
    have hlength : (StableSort.sort scoreDescCmp results).length ≤ topN := by
      have hcount := hall.length_eq
      rw [List.length_map, List.length_range] at hcount
      rw [hsorted.length_eq, hcount]
      exact hroom
    dsimp only
    rw [List.take_of_length_le hlength, (hsorted.map Prod.fst).mem_iff, hall.mem_iff]
    exact List.mem_range.mpr hi

theorem scoresAll_of_rerank {config : RankFusion.SearchConfig K} {query : Query K}
    {hits : List (String × K)} (document : String → String)
    (model : List String → Option (List (ℕ × K)))
    (hrerank : ∀ ids topN, query.rerank ids topN = rerank model (ids.map document) topN)
    (hmodel : ∀ documents results, model documents = some results →
      (results.map Prod.fst).Perm (List.range documents.length))
    (hstored : ∀ id ∈ headIds config hits, stored query id = true) :
    ScoresAll config query hits := by
  intro _ hne returned hreturned
  refine ⟨hstored, ?_⟩
  have hdocuments : documentIds config query hits = headIds config hits :=
    List.filter_eq_self.mpr hstored
  rw [hrerank, hdocuments] at hreturned
  rw [hdocuments] at hne
  have hroom : ((headIds config hits).map document).length ≤ topN config hits := by
    unfold headIds hitIds
    rw [List.length_map, List.length_map, List.length_take]
    exact min_le_left _ _
  have hscored : ∃ results, model ((headIds config hits).map document) = some results := by
    unfold rerank at hreturned
    rw [if_neg] at hreturned
    · obtain ⟨results, hresults, -⟩ := Option.map_eq_some_iff.mp hreturned
      exact ⟨results, hresults⟩
    · rw [List.isEmpty_iff, List.map_eq_nil_iff]
      exact hne
  obtain ⟨results, hresults⟩ := hscored
  have hindices := rerank_indices hresults (hmodel _ _ hresults) hroom hreturned
  rwa [List.length_map] at hindices

end Scored

/-! ## Both searches -/

/-- Reranking the hits keeps them all exactly where the reranker scores them all; reranking the
indicators always does. -/
theorem rerank_reorders_iff {K : Type*} [Field K] [LinearOrder K] (config : RankFusion.SearchConfig K)
    (query : Query K) (hits : List (String × K)) (hunique : UniqueIds hits)
    (rows : List (IndicatorSearchRow K)) (rowsTopN : ℕ) (rerankedHits : List (ℕ × K))
    (weight : K) :
    ((hitIds (rerankHits config query hits)).Perm (hitIds hits) ↔
        ScoresAll config query hits) ∧
      ∃ rows', List.Forall₂ SameIndicator rows rows' ∧
        (reorderIndicatorRowsWithReranker rows rowsTopN rerankedHits weight).Perm rows' :=
  ⟨rerankHits_perm_iff hunique, reorder_perm rows rowsTopN rerankedHits weight⟩

/-- The first of two hits has no entity, and the reranker is asked about the other one. -/
def halfStored : Query ℚ where
  primary := [("model.a", 3), ("model.b", 2)]
  primary_unique := by decide
  ngram := none
  fuzzy := none
  vector := none
  sparse := none
  indicator := none
  rerank := fun _ _ => some [(0, 1)]
  getEntityArchived := fun id => if id = "model.b" then some ⟨some "model"⟩ else none
  resourceTypes := []
  toLowercase := id

def rerankingConfig : RankFusion.SearchConfig ℚ :=
  { SearchPages.defaultConfig with enableReranker := true }

theorem rerank_reorders_halfStored :
    ((hitIds (rerankHits rerankingConfig halfStored halfStored.primary)).Perm
        (hitIds halfStored.primary) ↔
        ScoresAll rerankingConfig halfStored halfStored.primary) ∧
      ∃ rows', List.Forall₂ SameIndicator [] rows' ∧
        (reorderIndicatorRowsWithReranker [] 20 [(0, 1)] (1 : ℚ)).Perm rows' :=
  rerank_reorders_iff rerankingConfig halfStored halfStored.primary halfStored.primary_unique []
    20 [(0, 1)] 1

/-- The hit without an entity is gone. -/
theorem unstored_hit_lost :
    ¬ ∀ (config : RankFusion.SearchConfig ℚ) (query : Query ℚ) (hits : List (String × ℚ)),
      UniqueIds hits →
      (hitIds (rerankHits config query hits)).Perm (hitIds hits) := by
  intro h
  have hperm := h rerankingConfig halfStored halfStored.primary halfStored.primary_unique
  have hids : hitIds (rerankHits rerankingConfig halfStored halfStored.primary) = ["model.b"] := by
    decide
  rw [hids] at hperm
  have hlength := hperm.length_eq
  contradiction

end DbtNova.Reranking
