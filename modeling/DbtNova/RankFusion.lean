import Mathlib.Algebra.Order.Field.Basic
import Mathlib.Data.List.Sort
import Mathlib.Data.String.Basic

/-!
# The hits of a search

`build_fused_hits` of `tools/search/full.rs` joins the rankings of the retrievers, and the
reranker of `search` puts the first of them into a new order. Each retriever has a fixed
ranking, of which a request reads a prefix. The scores are those of an ordered field in
place of `f32`.
-/
namespace DbtNova.RankFusion

inductive Retriever
  | bm25 | ngram | fuzzy | vector | sparse | indicator

structure PersonaWeights (K : Type*) where
  bm25 : K
  ngram : K
  fuzzy : K
  vector : K
  sparse : K
  indicator : K

structure SearchConfig (K : Type*) where
  defaultLimit : ℕ
  maxPageSize : ℕ
  maxOffset : ℕ
  enableRrf : Bool
  rrfK : K
  rrfOverfetch : ℕ
  vectorTopK : ℕ
  sparseTopK : ℕ
  enableReranker : Bool
  rerankTopN : ℕ
  personaWeights : PersonaWeights K

/-- No id is there twice. -/
def UniqueIds {K : Type*} (hits : List (String × K)) : Prop := (hits.map Prod.fst).Nodup

instance {K : Type*} (hits : List (String × K)) : Decidable (UniqueIds hits) :=
  inferInstanceAs (Decidable (hits.map Prod.fst).Nodup)

structure ArchivedEntity where
  resourceType : Option String

/-- A query on a fixed index: the whole ranking of each retriever that takes part. -/
structure Query (K : Type*) where
  /-- `primary_results`, with the scores of Tantivy -/
  primary : List (String × K)
  /-- An entity has one document. -/
  primary_unique : UniqueIds primary
  ngram : Option (List String)
  fuzzy : Option (List String)
  vector : Option (List String)
  sparse : Option (List String)
  /-- The ids of the parents, with `indicator_parent_scores` -/
  indicator : Option (List String × (String → Option K))
  /-- The indices and scores for these documents, or `none` where no reranker answers -/
  rerank : List String → ℕ → Option (List (ℕ × K))
  getEntityArchived : String → Option ArchivedEntity
  resourceTypes : List String
  toLowercase : String → String

section Model
variable {K : Type*}

def retrieverWeight (weights : PersonaWeights K) : Retriever → K
  | .bm25 => weights.bm25
  | .ngram => weights.ngram
  | .fuzzy => weights.fuzzy
  | .vector => weights.vector
  | .sparse => weights.sparse
  | .indicator => weights.indicator

def usizeToF32 [Field K] (value : ℕ) : K := ((min value 65535 : ℕ) : K)

/-- The order of two scores, the higher one first. -/
def compareScoresDesc [LinearOrder K] (left right : K) : Ordering := compare right left

/-- `entry(id).or_default()`, to which the score is added. -/
def addScore [Field K] (id : String) (score : K) : List (String × K) → List (String × K)
  | [] => [(id, 0 + score)]
  | entry :: scores =>
      if entry.1 = id then (id, entry.2 + score) :: scores
      else entry :: addScore id score scores

def addRanking [Field K] (weights : PersonaWeights K) (k : K) (scores : List (String × K))
    (ranking : Retriever × List String) : List (String × K) :=
  ranking.2.zipIdx.foldl (fun scores ranked =>
    addScore ranked.1 (retrieverWeight weights ranking.1 / (k + usizeToF32 ranked.2 + 1)) scores)
    scores

def compareHits [LinearOrder K] (left right : String × K) : Ordering :=
  (compareScoresDesc left.2 right.2).then (compare left.1 right.1)

/-- `weighted_rrf_with_explain` without the explanations. -/
def weightedRrf [Field K] [LinearOrder K] (rankings : List (Retriever × List String))
    (weights : PersonaWeights K) (k : K) : List (String × K) :=
  (rankings.foldl (addRanking weights k) []).insertionSort
    fun left right => (compareHits left right).isLE

/-- What each retriever returns to a request. The vector retrievers are asked for more. -/
def rankings (config : SearchConfig K) (query : Query K) (fetchLimit : ℕ) :
    List (Retriever × List String) :=
  [(.bm25, (query.primary.take fetchLimit).map Prod.fst)]
    ++ (query.ngram.map fun ranking => (.ngram, ranking.take fetchLimit)).toList
    ++ (query.fuzzy.map fun ranking => (.fuzzy, ranking.take fetchLimit)).toList
    ++ (query.vector.map fun ranking =>
        (.vector, ranking.take (max config.vectorTopK fetchLimit))).toList
    ++ (query.sparse.map fun ranking =>
        (.sparse, ranking.take (max config.sparseTopK fetchLimit))).toList
    ++ (query.indicator.map fun ranking => (.indicator, ranking.1.take (max fetchLimit 1))).toList

structure FusedHitBundle (K : Type*) where
  hits : List (String × K)
  indicatorParentScores : String → Option K

def buildFusedHits [Field K] [LinearOrder K] (config : SearchConfig K) (query : Query K)
    (fetchLimit : ℕ) : FusedHitBundle K :=
  if config.enableRrf then
    let fusionLimit := max fetchLimit 1
    let truncated := (rankings config query fetchLimit).map fun ranking =>
      (ranking.1, ranking.2.take fusionLimit)
    { hits := weightedRrf truncated config.personaWeights config.rrfK
      indicatorParentScores := (query.indicator.map Prod.snd).getD fun _ => none }
  else
    { hits := query.primary.take fetchLimit
      indicatorParentScores := fun _ => none }

/-- `seen` holds the ids that were pushed. -/
def pushUnseen (reordered : List (String × K)) (hit : String × K) : List (String × K) :=
  if hit.1 ∈ reordered.map Prod.fst then reordered else reordered ++ [hit]

/-- The first hits in the order of the reranker, with its scores, before the others. -/
def rerankHits (config : SearchConfig K) (query : Query K) (hits : List (String × K)) :
    List (String × K) :=
  if config.enableReranker then
    let topN := min config.rerankTopN hits.length
    let ids := ((hits.take topN).map Prod.fst).filter fun id => (query.getEntityArchived id).isSome
    if ids.isEmpty then hits
    else
      match query.rerank ids topN with
      | none => hits
      | some rerankedHits =>
          let reranked := rerankedHits.filterMap fun ranked =>
            ids[ranked.1]?.map fun id => (id, ranked.2)
          (reranked ++ hits.drop topN).foldl pushUnseen []
  else hits

/-- The hits that the candidates are made of. -/
def searchHits [Field K] [LinearOrder K] (config : SearchConfig K) (query : Query K)
    (fetchLimit : ℕ) : List (String × K) :=
  rerankHits config query (buildFusedHits config query fetchLimit).hits

end Model

section Ids
variable {K : Type*}

theorem addScore_ids [Field K] (id : String) (score : K) (scores : List (String × K)) :
    (addScore id score scores).map Prod.fst =
      if id ∈ scores.map Prod.fst then scores.map Prod.fst else scores.map Prod.fst ++ [id] := by
  induction scores with
  | nil => rfl
  | cons entry scores ih =>
      unfold addScore
      by_cases hid : entry.1 = id
      · have hmem : id ∈ (entry :: scores).map Prod.fst := by
          rw [List.map_cons, hid]
          exact List.mem_cons_self
        rw [if_pos hid, if_pos hmem, List.map_cons, List.map_cons, hid]
      · have hmem : id ∈ (entry :: scores).map Prod.fst ↔ id ∈ scores.map Prod.fst := by
          rw [List.map_cons, List.mem_cons]
          exact or_iff_right (fun heq => hid heq.symm)
        rw [if_neg hid, List.map_cons, ih]
        simp only [hmem]
        split
        · rfl
        · rfl

theorem mem_foldl_addScore [Field K] {α : Type*} (name : α → String) (score : α → K)
    (ranked : List α) (scores : List (String × K)) (id : String) :
    id ∈ (ranked.foldl (fun scores a => addScore (name a) (score a) scores) scores).map Prod.fst ↔
      id ∈ scores.map Prod.fst ∨ id ∈ ranked.map name := by
  induction ranked generalizing scores with
  | nil => simp
  | cons a ranked ih =>
      rw [List.foldl_cons, ih, addScore_ids, List.map_cons, List.mem_cons]
      split
      · rename_i hseen
        constructor
        · intro h
          exact h.imp_right Or.inr
        · intro h
          rcases h with hold | rfl | hnew
          · exact Or.inl hold
          · exact Or.inl hseen
          · exact Or.inr hnew
      · rw [List.mem_append, List.mem_singleton, or_assoc]

theorem mem_foldl_addRanking [Field K] (weights : PersonaWeights K) (k : K)
    (rankings : List (Retriever × List String)) (scores : List (String × K)) (id : String) :
    id ∈ (rankings.foldl (addRanking weights k) scores).map Prod.fst ↔
      id ∈ scores.map Prod.fst ∨ ∃ ranking ∈ rankings, id ∈ ranking.2 := by
  induction rankings generalizing scores with
  | nil => simp
  | cons ranking rankings ih =>
      have hfirst : id ∈ (addRanking weights k scores ranking).map Prod.fst ↔
          id ∈ scores.map Prod.fst ∨ id ∈ ranking.2 := by
        unfold addRanking
        rw [mem_foldl_addScore Prod.fst, List.zipIdx_map_fst]
      rw [List.foldl_cons, ih, hfirst, List.exists_mem_cons_iff, or_assoc]

/-- The fused hits are the ids of all rankings. -/
theorem mem_weightedRrf [Field K] [LinearOrder K] (rankings : List (Retriever × List String))
    (weights : PersonaWeights K) (k : K) (id : String) :
    id ∈ (weightedRrf rankings weights k).map Prod.fst ↔
      ∃ ranking ∈ rankings, id ∈ ranking.2 := by
  have hperm := List.perm_insertionSort (fun left right => (compareHits left right).isLE)
    (rankings.foldl (addRanking weights k) [])
  unfold weightedRrf
  rw [(hperm.map Prod.fst).mem_iff, mem_foldl_addRanking]
  exact or_iff_right List.not_mem_nil

theorem pushUnseen_ids (reordered : List (String × K)) (hit : String × K) :
    (pushUnseen reordered hit).map Prod.fst =
      if hit.1 ∈ reordered.map Prod.fst then reordered.map Prod.fst
      else reordered.map Prod.fst ++ [hit.1] := by
  unfold pushUnseen
  split
  · rfl
  · exact List.map_append

theorem nodup_push {ids : List String} (id : String) (h : ids.Nodup) :
    (if id ∈ ids then ids else ids ++ [id]).Nodup := by
  split
  · exact h
  · rename_i hid
    apply List.nodup_append.mpr
    refine ⟨h, List.nodup_singleton id, ?_⟩
    intro a ha b hb hab
    rw [List.mem_singleton.mp hb] at hab
    exact hid (hab ▸ ha)

namespace UniqueIds

theorem addScore [Field K] {scores : List (String × K)} (h : UniqueIds scores) (id : String)
    (score : K) : UniqueIds (addScore id score scores) := by
  unfold UniqueIds
  rw [addScore_ids]
  exact nodup_push id h

theorem pushUnseen {reordered : List (String × K)} (h : UniqueIds reordered)
    (hit : String × K) : UniqueIds (pushUnseen reordered hit) := by
  unfold UniqueIds
  rw [pushUnseen_ids]
  exact nodup_push hit.1 h

theorem foldl {α : Type*} {f : List (String × K) → α → List (String × K)}
    (hf : ∀ hits a, UniqueIds hits → UniqueIds (f hits a)) (l : List α) {hits : List (String × K)}
    (h : UniqueIds hits) : UniqueIds (l.foldl f hits) := by
  induction l generalizing hits with
  | nil => exact h
  | cons a l ih => exact ih (hf hits a h)

theorem nil : UniqueIds ([] : List (String × K)) := List.nodup_nil

theorem weightedRrf [Field K] [LinearOrder K] (rankings : List (Retriever × List String))
    (weights : PersonaWeights K) (k : K) : UniqueIds (weightedRrf rankings weights k) := by
  have hscores : UniqueIds (rankings.foldl (addRanking weights k) []) := by
    apply foldl _ rankings nil
    intro scores ranking hscores
    exact foldl (fun _ _ h => h.addScore _ _) _ hscores
  have hperm := List.perm_insertionSort (fun left right => (compareHits left right).isLE)
    (rankings.foldl (addRanking weights k) [])
  exact (hperm.map Prod.fst).nodup_iff.mpr hscores

theorem rerankHits {hits : List (String × K)} (h : UniqueIds hits) (config : SearchConfig K)
    (query : Query K) : UniqueIds (rerankHits config query hits) := by
  unfold RankFusion.rerankHits
  split
  · dsimp only
    split
    · exact h
    · split
      · exact h
      · exact foldl (fun _ hit h => h.pushUnseen hit) _ nil
  · exact h

theorem buildFusedHits [Field K] [LinearOrder K] (config : SearchConfig K) (query : Query K)
    (fetchLimit : ℕ) : UniqueIds (buildFusedHits config query fetchLimit).hits := by
  unfold RankFusion.buildFusedHits
  split
  · exact weightedRrf _ _ _
  · unfold UniqueIds
    rw [List.map_take]
    exact query.primary_unique.take

end UniqueIds

/-- No id is among the hits twice. -/
theorem searchHits_unique [Field K] [LinearOrder K] (config : SearchConfig K) (query : Query K)
    (fetchLimit : ℕ) : UniqueIds (searchHits config query fetchLimit) :=
  (UniqueIds.buildFusedHits config query fetchLimit).rerankHits config query

end Ids

end DbtNova.RankFusion
