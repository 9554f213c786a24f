import DbtNova.EntityMeta
import DbtNova.LevelSearch
import DbtNova.Lineage
import DbtNova.Tally
import Mathlib.Data.List.ReduceOption

/-!
# The lineage sections of a context

`build_lineage_context` of `tools/context.rs`: the ids around an entity, level by level, under
two limits, then what of them the entity store has and the section shows.
-/
namespace DbtNova.ContextLineage
open Text Lineage

inductive ContextMode
  | standard
  | analyst
  | engineer
  | governance

structure ArchivedEntity where
  name : Option String
  resourceType : Option String
  description : Option String
  provenance : JsonValue

/-- What `get_context` reads of a manifest for these sections. -/
structure ManifestSearch where
  index : LineageIndex
  config : LineageConfig
  getEntityArchived : String → Result (Option ArchivedEntity)
  dependencyHints : String → JsonValue × ℕ

structure LineageContextRequest where
  direction : String
  depth : ℕ
  limit : ℕ
  contextMode : ContextMode
  includeTests : Bool

structure LineageEntity where
  uniqueId : String
  name : String
  resourceType : String
  description : Option String
  provenance : JsonValue

structure LineageContext where
  count : ℕ
  truncated : Bool
  byType : List (String × ℕ)
  testsTotal : Option ℕ
  entities : List LineageEntity
  lineageStatus : String
  lineageHints : JsonValue

structure LineageTraversal where
  ids : List String
  truncated : Bool

structure LineageDisplaySelection where
  byType : List (String × ℕ)
  testsTotal : ℕ
  ids : List String

section Model
variable (search : ManifestSearch)

def configuredLimit : ℕ := max search.config.lineageMaxResults 1

def traversalLimit (request : LineageContextRequest) : ℕ :=
  if request.includeTests then max (min request.limit (configuredLimit search)) 1
  else configuredLimit search

/-- So many ids are enough. -/
def enough (request : LineageContextRequest) (found : ℕ) : Bool :=
  decide (traversalLimit search request ≤ found) ||
    (request.includeTests && decide (request.limit ≤ found))

def collectLineageIds (map : List (String × List String)) (entityId : String)
    (request : LineageContextRequest) : LineageTraversal :=
  let maxDepth := min request.depth search.config.lineageMaxDepth
  let result := (LevelSearch.walk (fun id => (map.lookup id).getD []) (enough search request)
    maxDepth (LevelSearch.start entityId)).found
  { ids := result
    truncated := enough search request result.length }

/-- The body of the loop over the ids. -/
def selectId (includeTests : Bool) (selection : LineageDisplaySelection) (id : String) :
    Result LineageDisplaySelection := do
  match ← search.getEntityArchived id with
  | none => return selection
  | some entity =>
      let rt := entity.resourceType.getD "unknown"
      let byType := Tally.bump selection.byType rt
      if rt = "test" then
        return {
          byType := byType
          testsTotal := selection.testsTotal + 1
          ids := if includeTests then selection.ids ++ [id] else selection.ids }
      else return { selection with byType := byType, ids := selection.ids ++ [id] }

def lineageDisplaySelection (ids : List String) (includeTests : Bool) :
    Result LineageDisplaySelection :=
  ids.foldlM (selectId search includeTests) ⟨[], 0, []⟩

def lineageEntity (contextMode : ContextMode) (id : String) (entity : ArchivedEntity) :
    LineageEntity where
  uniqueId := id
  name := entity.name.getD ""
  resourceType := entity.resourceType.getD "unknown"
  description :=
    match contextMode with
    | .engineer => none
    | _ => (entity.description.map trim).filter (!·.isEmpty)
  provenance := entity.provenance

def lineageEntities (displayIds : List String) (contextMode : ContextMode) :
    Result (List LineageEntity) := do
  let entities ← displayIds.mapM fun id =>
    (search.getEntityArchived id).map fun entity => entity.map (lineageEntity contextMode id)
  return entities.reduceOption

/-- The map of the direction. -/
def contextMap (direction : String) : Result (List (String × List String)) :=
  if direction = "upstream" then .ok search.index.parentMap
  else if direction = "downstream" then .ok search.index.childMap
  else .error (.invalidParams "Invalid direction")

def buildLineageContext (entityId : String) (request : LineageContextRequest) :
    Result LineageContext := do
  let map ← contextMap search request.direction
  let traversal := collectLineageIds search map entityId request
  let (lineageHints, hintsTotal) := search.dependencyHints entityId
  let lineageStatus :=
    if traversal.ids.isEmpty then
      if hintsTotal = 0 then "no_dependencies_recorded"
      else "dependencies_unresolved_or_filtered"
    else "ok"
  let displayLimit := min request.limit (configuredLimit search)
  let display ← lineageDisplaySelection search traversal.ids request.includeTests
  let truncated :=
    traversal.truncated ||
      decide (displayLimit < (if request.includeTests then traversal.ids else display.ids).length)
  let entities ← lineageEntities search (display.ids.take displayLimit) request.contextMode
  return {
    count := entities.length
    truncated := truncated
    byType := display.byType
    testsTotal :=
      if !request.includeTests && decide (0 < display.testsTotal) then some display.testsTotal
      else none
    entities := entities
    lineageStatus := lineageStatus
    lineageHints := lineageHints }

end Model

/-! ## What the sections list -/

/-- The ids within so many levels are those that so long a path reaches. -/
theorem steps_iff_path {map : List (String × List String)} {rootId v : String} {n : ℕ} :
    LevelSearch.Steps (fun id => (map.lookup id).getD []) rootId n v ↔
      ∃ path, Path map rootId path v ∧ path.length = n := by
  constructor
  · intro h
    induction h with
    | root => exact ⟨[], Path.nil, rfl⟩
    | @step n u v _ hv ih =>
        obtain ⟨path, hpath, hlength⟩ := ih
        cases hlookup : map.lookup u with
        | none =>
            rw [hlookup] at hv
            exact absurd hv List.not_mem_nil
        | some ids =>
            rw [hlookup] at hv
            refine ⟨path ++ [v], Path.snoc hpath hlookup hv, ?_⟩
            rw [List.length_append, List.length_singleton, hlength]
  · intro h
    obtain ⟨path, hpath, rfl⟩ := h
    induction hpath with
    | nil => exact LevelSearch.Steps.root
    | @snoc path u v ids _ hlookup hv ih =>
        rw [List.length_append, List.length_singleton]
        refine LevelSearch.Steps.step ih ?_
        rw [hlookup]
        exact hv

section Sections
variable {search : ManifestSearch} {request : LineageContextRequest} {entityId : String}

theorem enough_mono (m n : ℕ) (hle : m ≤ n) (h : enough search request m = true) :
    enough search request n = true := by
  unfold enough at h ⊢
  simp only [Bool.or_eq_true, Bool.and_eq_true, decide_eq_true_eq] at h ⊢
  exact h.imp (fun hm => hm.trans hle) (fun hm => ⟨hm.1, hm.2.trans hle⟩)

theorem collectLineageIds_spec {map : List (String × List String)}
    (h : (collectLineageIds search map entityId request).truncated = false) :
    (collectLineageIds search map entityId request).ids.Nodup ∧
      ∀ v, v ∈ (collectLineageIds search map entityId request).ids ↔
        v ∈ Nearby map (min request.depth search.config.lineageMaxDepth) entityId := by
  obtain ⟨hnodup, hmem⟩ := LevelSearch.walk_spec enough_mono h
  refine ⟨hnodup, ?_⟩
  intro v
  refine (hmem v).trans (and_congr_right fun _ => ?_)
  constructor
  · intro hwithin
    obtain ⟨n, hn, hsteps⟩ := hwithin
    obtain ⟨path, hpath, hlength⟩ := steps_iff_path.mp hsteps
    exact ⟨path, hpath, hlength.le.trans hn⟩
  · intro hpath
    obtain ⟨path, hpath, hlength⟩ := hpath
    exact ⟨path.length, hlength, steps_iff_path.mpr ⟨path, hpath, rfl⟩⟩

def stored (search : ManifestSearch) (id : String) : Bool :=
  match search.getEntityArchived id with
  | .ok (some _) => true
  | _ => false

def isTest (search : ManifestSearch) (id : String) : Bool :=
  match search.getEntityArchived id with
  | .ok (some entity) => entity.resourceType == some "test"
  | _ => false

/-- The stored ids, the tests among them only where they are wanted. -/
def shown (search : ManifestSearch) (includeTests : Bool) (id : String) : Bool :=
  stored search id && (includeTests || !isTest search id)

theorem selectId_ids {includeTests : Bool} {selection selection' : LineageDisplaySelection}
    {id : String} (h : selectId search includeTests selection id = .ok selection') :
    selection'.ids = selection.ids ++ [id].filter (shown search includeTests) := by
  unfold selectId at h
  obtain ⟨found, hfound, h⟩ := bind_eq_ok.mp h
  unfold shown stored isTest
  cases found with
  | none =>
      cases h
      simp [hfound]
  | some entity =>
      dsimp only at h
      split at h
      · rename_i htest
        cases h
        have hnamed : entity.resourceType = some "test" := by
          cases hrt : entity.resourceType with
          | none =>
              rw [hrt] at htest
              revert htest
              decide
          | some rt =>
              rw [hrt] at htest
              exact congrArg some htest
        cases includeTests with
        | true => simp [hfound]
        | false => simp [hfound, hnamed]
      · rename_i hother
        cases h
        have hnamed : entity.resourceType ≠ some "test" := by
          intro hrt
          rw [hrt] at hother
          exact hother rfl
        simp [hfound, hnamed]

theorem foldlM_selectId_ids {includeTests : Bool} {ids : List String}
    {selection selection' : LineageDisplaySelection}
    (h : ids.foldlM (selectId search includeTests) selection = .ok selection') :
    selection'.ids = selection.ids ++ ids.filter (shown search includeTests) := by
  induction ids generalizing selection with
  | nil =>
      cases h
      exact (List.append_nil _).symm
  | cons id ids ih =>
      rw [List.foldlM_cons] at h
      obtain ⟨middle, hmiddle, h⟩ := bind_eq_ok.mp h
      rw [ih h, selectId_ids hmiddle, List.append_assoc, ← List.filter_append,
        List.singleton_append]

/-- Stored ids are all listed. -/
theorem lineageEntities_ids {ids : List String} {contextMode : ContextMode}
    {entities : List LineageEntity}
    (h : lineageEntities search ids contextMode = .ok entities)
    (hstored : ∀ id ∈ ids, stored search id = true) :
    entities.map LineageEntity.uniqueId = ids := by
  unfold lineageEntities at h
  obtain ⟨found, hfound, hentities⟩ := bind_eq_ok.mp h
  cases hentities
  have hall := forall₂_of_mapM_ok hfound
  clear h hfound
  induction hall with
  | nil => rfl
  | @cons id entity ids found hentity _ ih =>
      rw [List.forall_mem_cons] at hstored
      have hhead := hstored.1
      unfold stored at hhead
      cases hlookup : search.getEntityArchived id with
      | error e =>
          rw [hlookup] at hentity
          contradiction
      | ok archived =>
          cases archived with
          | none =>
              rw [hlookup] at hhead
              contradiction
          | some archived =>
              rw [hlookup] at hentity
              cases hentity
              dsimp only [Option.map_some]
              rw [List.reduceOption_cons_of_some, List.map_cons, ih hstored.2]
              rfl

/-- A section that is not truncated lists the shown ones of what it has collected. -/
theorem buildLineageContext_ids {context : LineageContext}
    (h : buildLineageContext search entityId request = .ok context)
    (hwhole : context.truncated = false) :
    ∃ map, contextMap search request.direction = .ok map ∧
      (collectLineageIds search map entityId request).truncated = false ∧
      context.entities.map LineageEntity.uniqueId =
        (collectLineageIds search map entityId request).ids.filter
          (shown search request.includeTests) := by
  unfold buildLineageContext at h
  obtain ⟨map, hmap, h⟩ := bind_eq_ok.mp h
  dsimp only at h
  obtain ⟨display, hdisplay, h⟩ := bind_eq_ok.mp h
  obtain ⟨entities, hentities, h⟩ := bind_eq_ok.mp h
  cases h
  obtain ⟨hcollected, hlimit⟩ := Bool.or_eq_false_iff.mp hwhole
  have hids := foldlM_selectId_ids hdisplay
  rw [List.nil_append] at hids
  have hroom : display.ids.length ≤ min request.limit (configuredLimit search) := by
    have hle := Nat.not_lt.mp (of_decide_eq_false hlimit)
    split at hle
    · rw [hids]
      exact (List.length_filter_le _ _).trans hle
    · exact hle
  refine ⟨map, hmap, hcollected, ?_⟩
  rw [List.take_of_length_le hroom] at hentities
  rw [← hids]
  apply lineageEntities_ids hentities
  intro id hid
  rw [hids, List.mem_filter] at hid
  exact (Bool.and_eq_true_iff.mp hid.2).1

theorem contextMap_eq {direction : String} {map map' : List (String × List String)}
    {upstream : Bool} (h : contextMap search direction = .ok map)
    (h' : lineageMap search.index direction = .ok (map', upstream)) : map = map' := by
  unfold contextMap at h
  unfold lineageMap at h'
  split at h
  · rename_i hup
    rw [if_pos hup] at h'
    cases h
    cases h'
    rfl
  · rename_i hnotup
    rw [if_neg hnotup] at h'
    split at h
    · rename_i hdown
      rw [if_pos hdown] at h'
      cases h
      cases h'
      rfl
    · contradiction

end Sections

/-- A manifest with two cycles, and a store without the last id. -/
def cyclicManifest : ManifestSearch where
  index := cyclicIndex
  config := ⟨200, 10000⟩
  getEntityArchived := fun id =>
    .ok (if id = "model.d" then none
      else some ⟨some id, some (if id = "test.t" then "test" else "model"), none, .null⟩)
  dependencyHints := fun _ => (.null, 0)

def testsBelow : LineageContextRequest := ⟨"downstream", 5, 20, .standard, true⟩

end DbtNova.ContextLineage
