import DbtNova.ManifestParse
import Mathlib.Data.Finset.Lattice.Lemmas

/-!
# A parse as a list of steps

The nested loops of a parse come down to one list of steps. Each step has one
lemma for what it changes, and each field that later results need has one for
what a run of steps makes of it.
-/
namespace DbtNova.ManifestParse
open JsonValue CatalogColumns

/-- An entity that is kept, with the columns of the catalog in its payload, or a
whole value that replaces one. -/
inductive Step where
  | entity (forced : Option String) (uniqueId : String) (payload : JsonValue)
  | parents (map : KeyedSets String String)
  | children (map : KeyedSets String String)
  | metadata (value : JsonValue)

def Step.apply (acc : ManifestAccumulator) : Step → ManifestAccumulator
  | .entity forced uniqueId payload =>
      (acc.addEntity uniqueId payload forced).recordDependencies uniqueId payload
  | .parents map => { acc with parentMap := map }
  | .children map => { acc with childMap := map }
  | .metadata value => { acc with manifestMetadata := value }

section Steps
variable (pruner : Option ManifestPruner) (catalogColumns : Option CatalogColumnMap)

def entitySteps (forced : Option String) (entities : List (String × JsonValue)) : List Step :=
  (entities.filter fun entry => keeps pruner forced entry.1 entry.2).map fun entry =>
    .entity forced entry.1 (withCatalog catalogColumns entry.1 entry.2)

/-- The map that a section gives, when it gives one. -/
def givenMap (value : JsonValue) : Option (KeyedSets String String) :=
  match readAdjacency value with
  | some (first :: rest) => some (mapVecToSet (first :: rest))
  | _ => none

def sectionSteps (entry : String × JsonValue) : List Step :=
  match manifestEntitySection entry.1 with
  | some kind => entitySteps pruner catalogColumns kind.forced (entry.2.asObject.getD [])
  | none =>
      if entry.1 = "parent_map" then (givenMap entry.2).toList.map .parents
      else if entry.1 = "child_map" then (givenMap entry.2).toList.map .children
      else if entry.1 = "metadata" ∧ ¬ entry.2.isNull then [.metadata entry.2]
      else []

def WellFormed (entry : String × JsonValue) : Prop :=
  match manifestEntitySection entry.1 with
  | some _ => entry.2.isNull ∨ entry.2.asObject.isSome
  | none =>
      entry.1 = "parent_map" ∨ entry.1 = "child_map" → (readAdjacency entry.2).isSome

def manifestSteps (sections : List (String × JsonValue)) : List Step :=
  sections.flatMap (sectionSteps pruner catalogColumns)

theorem foldl_visitEntity (forced : Option String) (entities : List (String × JsonValue))
    (acc : ManifestAccumulator) :
    entities.foldl (visitEntity pruner catalogColumns forced) acc =
      (entitySteps pruner catalogColumns forced entities).foldl Step.apply acc := by
  induction entities generalizing acc with
  | nil => rfl
  | cons entry entities ih =>
      rw [List.foldl_cons, ih]
      unfold entitySteps visitEntity
      by_cases hkeep : keeps pruner forced entry.1 entry.2 = true
      · simp only [hkeep, if_true, List.filter_cons, List.map_cons, List.foldl_cons]
        rfl
      · simp only [hkeep, if_false, List.filter_cons, Bool.false_eq_true]

/-- A section fails or performs its steps. -/
theorem visitSection_ok (acc result : ManifestAccumulator) (entry : String × JsonValue) :
    visitSection pruner catalogColumns acc entry = .ok result ↔
      WellFormed entry ∧
        result = (sectionSteps pruner catalogColumns entry).foldl Step.apply acc := by
  obtain ⟨key, value⟩ := entry
  unfold visitSection WellFormed sectionSteps
  simp only
  cases manifestEntitySection key with
  | some kind =>
      cases value with
      | object entities =>
          simp only [foldl_visitEntity, Except.ok.injEq, asObject, Option.isSome_some, or_true,
            true_and, Option.getD_some]
          exact eq_comm
      | null => simp [entitySteps, isNull, asObject, eq_comm]
      | bool flag => simp [isNull, asObject]
      | number text => simp [isNull, asObject]
      | string text => simp [isNull, asObject]
      | array values => simp [isNull, asObject]
  | none =>
      unfold givenMap
      by_cases hparent : key = "parent_map"
      · simp only [hparent, if_true]
        cases readAdjacency value with
        | none => simp
        | some entries => cases entries <;> simp [Step.apply, eq_comm]
      · by_cases hchild : key = "child_map"
        · simp only [hchild, if_true, if_neg (by decide : ¬ "child_map" = "parent_map")]
          cases readAdjacency value with
          | none => simp
          | some entries => cases entries <;> simp [Step.apply, eq_comm]
        · simp only [hparent, hchild, if_false, or_self, false_implies, true_and]
          by_cases hmetadata : key = "metadata"
          · by_cases hnull : value.isNull = true
            · simp only [hmetadata, hnull, if_true, not_true_eq_false, and_false, if_false,
                List.foldl_nil, Except.ok.injEq]
              exact eq_comm
            · simp only [hmetadata, hnull, if_true, not_false_eq_true, and_self, if_false,
                List.foldl_cons, List.foldl_nil, Except.ok.injEq, Step.apply, Bool.false_eq_true]
              exact eq_comm
          · simp only [hmetadata, false_and, if_false, List.foldl_nil, Except.ok.injEq]
            exact eq_comm

theorem visitMap_ok (sections : List (String × JsonValue)) (acc result : ManifestAccumulator) :
    visitMap pruner catalogColumns acc sections = .ok result ↔
      (∀ entry ∈ sections, WellFormed entry) ∧
        result = (manifestSteps pruner catalogColumns sections).foldl Step.apply acc := by
  induction sections generalizing acc with
  | nil =>
      rw [visitMap]
      simp [manifestSteps, eq_comm]
  | cons entry sections ih =>
      rw [visitMap, List.forall_mem_cons, manifestSteps, List.flatMap_cons, List.foldl_append]
      cases hvisit : visitSection pruner catalogColumns acc entry with
      | error error =>
          have hnot : ¬ WellFormed entry := by
            intro hwell
            have hok := (visitSection_ok pruner catalogColumns acc _ entry).mpr ⟨hwell, rfl⟩
            rw [hvisit] at hok
            cases hok
          constructor
          · intro h
            cases h
          · intro h
            exact absurd h.1.1 hnot
      | ok next =>
          obtain ⟨hwell, hnext⟩ := (visitSection_ok pruner catalogColumns acc next entry).mp hvisit
          rw [ih, hnext]
          constructor
          · rintro ⟨hrest, hresult⟩
            exact ⟨⟨hwell, hrest⟩, hresult⟩
          · rintro ⟨⟨_, hrest⟩, hresult⟩
            exact ⟨hrest, hresult⟩

end Steps

/-! ## What each step changes -/

namespace ManifestAccumulator
variable (acc : ManifestAccumulator) (uniqueId : String) (payload : JsonValue)
  (forced : Option String)

/-- The recording of dependencies touches only the two lineage maps. -/
theorem recordDependencies_eq :
    acc.recordDependencies uniqueId payload =
      { acc with
        parentMap := acc.parentMap.addAll ((dependencyIds payload).map (uniqueId, ·))
        childMap := acc.childMap.addAll ((dependencyIds payload).map (·, uniqueId)) } := by
  unfold recordDependencies KeyedSets.addAll
  induction dependencyIds payload generalizing acc with
  | nil => rfl
  | cons depId deps ih => rw [List.foldl_cons, ih, List.map_cons, List.foldl_cons]; rfl

theorem addEntity_seen (h : uniqueId ∈ acc.seenUniqueIds) :
    acc.addEntity uniqueId payload forced = acc := if_pos h

/-- Equal up to tags, schemas, paths and the store. -/
structure SameIndexes (a b : ManifestAccumulator) : Prop where
  seen : a.seenUniqueIds = b.seenUniqueIds
  types : a.byResourceType = b.byResourceType
  counts : a.entityCounts = b.entityCounts
  packages : a.byPackage = b.byPackage
  names : a.nameToKeys = b.nameToKeys
  parents : a.parentMap = b.parentMap
  children : a.childMap = b.childMap

theorem SameIndexes.refl (a : ManifestAccumulator) : SameIndexes a a :=
  ⟨rfl, rfl, rfl, rfl, rfl, rfl, rfl⟩

theorem SameIndexes.trans {a b c : ManifestAccumulator} (hab : SameIndexes a b)
    (hbc : SameIndexes b c) : SameIndexes a c where
  seen := hab.seen.trans hbc.seen
  types := hab.types.trans hbc.types
  counts := hab.counts.trans hbc.counts
  packages := hab.packages.trans hbc.packages
  names := hab.names.trans hbc.names
  parents := hab.parents.trans hbc.parents
  children := hab.children.trans hbc.children

theorem addTags_same (tags : List String) : SameIndexes (acc.addTags uniqueId tags) acc := by
  unfold addTags
  split
  · exact .refl acc
  · exact ⟨rfl, rfl, rfl, rfl, rfl, rfl, rfl⟩

theorem addDatabaseSchema_same (db schema : String) :
    SameIndexes (acc.addDatabaseSchema uniqueId db schema) acc := by
  unfold addDatabaseSchema
  split
  · exact .refl acc
  · exact ⟨rfl, rfl, rfl, rfl, rfl, rfl, rfl⟩

theorem addPath_same (path : Option String) : SameIndexes (acc.addPath uniqueId path) acc := by
  unfold addPath
  split
  · exact .refl acc
  · exact ⟨rfl, rfl, rfl, rfl, rfl, rfl, rfl⟩

/-- What adding a type does to an accumulator. -/
structure Typed (acc typed : ManifestAccumulator) (uniqueId : String) : Prop where
  seen : typed.seenUniqueIds = acc.seenUniqueIds
  packages : typed.byPackage = acc.byPackage
  names : typed.nameToKeys = acc.nameToKeys
  parents : typed.parentMap = acc.parentMap
  children : typed.childMap = acc.childMap
  /-- The index by type and the counts move together, if at all. -/
  types : (typed.byResourceType = acc.byResourceType ∧ typed.entityCounts = acc.entityCounts) ∨
    ∃ resourceType, typed.byResourceType = push acc.byResourceType resourceType uniqueId ∧
      typed.entityCounts = fun t =>
        if t = resourceType then acc.entityCounts t + 1 else acc.entityCounts t

theorem addResourceType_typed (resourceType : String) :
    Typed acc (acc.addResourceType uniqueId resourceType) uniqueId := by
  unfold addResourceType
  split
  · exact ⟨rfl, rfl, rfl, rfl, rfl, .inl ⟨rfl, rfl⟩⟩
  · exact ⟨rfl, rfl, rfl, rfl, rfl, .inr ⟨resourceType, rfl, rfl⟩⟩

/-- What a new entity does to the fields that the claims of the tools rest on. -/
structure Added (acc added : ManifestAccumulator) (uniqueId : String) : Prop where
  seen : added.seenUniqueIds = insert uniqueId acc.seenUniqueIds
  packages : ∃ package, added.byPackage = push acc.byPackage package uniqueId
  names : ∃ name, added.nameToKeys = push acc.nameToKeys name uniqueId
  parents : added.parentMap = acc.parentMap
  children : added.childMap = acc.childMap
  types : (added.byResourceType = acc.byResourceType ∧ added.entityCounts = acc.entityCounts) ∨
    ∃ resourceType, added.byResourceType = push acc.byResourceType resourceType uniqueId ∧
      added.entityCounts = fun t =>
        if t = resourceType then acc.entityCounts t + 1 else acc.entityCounts t

theorem addEntity_new (h : uniqueId ∉ acc.seenUniqueIds) :
    Added acc (acc.addEntity uniqueId payload forced) uniqueId := by
  unfold addEntity
  rw [if_neg h]
  extract_lets entity stored typed named tagged placed
  have htyped : Typed stored typed uniqueId := addResourceType_typed _ _ _
  have hsame : SameIndexes (placed.addPath uniqueId entity.originalFilePath) named :=
    (addPath_same _ _ _).trans ((addDatabaseSchema_same _ _ _ _).trans (addTags_same _ _ _))
  constructor
  · exact hsame.seen.trans htyped.seen
  · exact ⟨_, hsame.packages.trans (congrArg (push · _ uniqueId) htyped.packages)⟩
  · exact ⟨_, hsame.names.trans (congrArg (push · _ uniqueId) htyped.names)⟩
  · exact hsame.parents.trans htyped.parents
  · exact hsame.children.trans htyped.children
  · rw [hsame.types, hsame.counts]
    exact htyped.types

/-- The fields that no field of an entity decides. -/
theorem addEntity_fields :
    (acc.addEntity uniqueId payload forced).seenUniqueIds = insert uniqueId acc.seenUniqueIds ∧
      (acc.addEntity uniqueId payload forced).parentMap = acc.parentMap ∧
      (acc.addEntity uniqueId payload forced).childMap = acc.childMap := by
  by_cases hseen : uniqueId ∈ acc.seenUniqueIds
  · rw [addEntity_seen acc uniqueId payload forced hseen]
    exact ⟨(Finset.insert_eq_of_mem hseen).symm, rfl, rfl⟩
  · have hadded := addEntity_new acc uniqueId payload forced hseen
    exact ⟨hadded.seen, hadded.parents, hadded.children⟩

end ManifestAccumulator

/-! ## What the steps add up to -/

def Step.uniqueId? : Step → Option String
  | .entity _ uniqueId _ => some uniqueId
  | _ => none

/-- The ids of the entities that are kept. -/
def entityIds (steps : List Step) : Finset String := (steps.filterMap Step.uniqueId?).toFinset

/-- Each dependency with the entity that has it first. -/
def Step.parentPairs : Step → List (String × String)
  | .entity _ uniqueId payload =>
      (ManifestAccumulator.dependencyIds payload).map (uniqueId, ·)
  | _ => []

def parentPairs (steps : List Step) : List (String × String) := steps.flatMap Step.parentPairs

/-- Each dependency with the entity that has it last. -/
def childPairs (steps : List Step) : List (String × String) :=
  (parentPairs steps).map Prod.swap

theorem mem_childPairs {steps : List Step} {c p : String} :
    (p, c) ∈ childPairs steps ↔ (c, p) ∈ parentPairs steps := by
  unfold childPairs
  rw [List.mem_map]
  constructor
  · rintro ⟨⟨a, b⟩, hpair, hswap⟩
    cases hswap
    exact hpair
  · intro h
    exact ⟨(c, p), h, rfl⟩

theorem Step.apply_entity (acc : ManifestAccumulator) (forced : Option String)
    (uniqueId : String) (payload : JsonValue) :
    (Step.entity forced uniqueId payload).apply acc =
      { acc.addEntity uniqueId payload forced with
        parentMap := acc.parentMap.addAll
          ((ManifestAccumulator.dependencyIds payload).map (uniqueId, ·))
        childMap := acc.childMap.addAll
          ((ManifestAccumulator.dependencyIds payload).map (·, uniqueId)) } := by
  obtain ⟨_, hparents, hchildren⟩ := acc.addEntity_fields uniqueId payload forced
  rw [← hparents, ← hchildren]
  exact ManifestAccumulator.recordDependencies_eq _ uniqueId payload

theorem Step.apply_seen (acc : ManifestAccumulator) (step : Step) :
    (step.apply acc).seenUniqueIds =
      acc.seenUniqueIds ∪ entityIds [step] := by
  cases step with
  | entity forced uniqueId payload =>
      rw [Step.apply_entity]
      simp only [(acc.addEntity_fields uniqueId payload forced).1]
      rw [Finset.union_comm]
      rfl
  | parents map => exact (Finset.union_empty _).symm
  | children map => exact (Finset.union_empty _).symm
  | metadata value => exact (Finset.union_empty _).symm

theorem foldl_seen (steps : List Step) (acc : ManifestAccumulator) :
    (steps.foldl Step.apply acc).seenUniqueIds = acc.seenUniqueIds ∪ entityIds steps := by
  induction steps generalizing acc with
  | nil => exact (Finset.union_empty _).symm
  | cons step steps ih =>
      have hids : entityIds (step :: steps) = entityIds [step] ∪ entityIds steps := by
        unfold entityIds
        rw [← List.toFinset_append, ← List.filterMap_append, List.singleton_append]
      rw [List.foldl_cons, ih, Step.apply_seen, hids, Finset.union_assoc]

/-- One lineage map, as one step changes it: `pairs` are the pairs a step adds and
`whole` is the map that replaces it. -/
def lineageStep (pairs : Step → List (String × String))
    (whole : Step → Option (KeyedSets String String)) (m : KeyedSets String String)
    (step : Step) : KeyedSets String String :=
  match whole step with
  | some map => map
  | none => m.addAll (pairs step)

def Step.wholeParents : Step → Option (KeyedSets String String)
  | .parents map => some map
  | _ => none

def Step.wholeChildren : Step → Option (KeyedSets String String)
  | .children map => some map
  | _ => none

def Step.childPairs (step : Step) : List (String × String) := step.parentPairs.map Prod.swap

theorem foldl_parentMap (steps : List Step) (acc : ManifestAccumulator) :
    (steps.foldl Step.apply acc).parentMap =
      steps.foldl (lineageStep Step.parentPairs Step.wholeParents) acc.parentMap := by
  induction steps generalizing acc with
  | nil => rfl
  | cons step steps ih =>
      rw [List.foldl_cons, List.foldl_cons, ih]
      congr 1
      cases step with
      | entity forced uniqueId payload =>
          rw [Step.apply_entity]
          rfl
      | parents map => rfl
      | children map => rfl
      | metadata value => rfl

theorem foldl_childMap (steps : List Step) (acc : ManifestAccumulator) :
    (steps.foldl Step.apply acc).childMap =
      steps.foldl (lineageStep Step.childPairs Step.wholeChildren) acc.childMap := by
  induction steps generalizing acc with
  | nil => rfl
  | cons step steps ih =>
      rw [List.foldl_cons, List.foldl_cons, ih]
      congr 1
      cases step with
      | entity forced uniqueId payload =>
          rw [Step.apply_entity]
          unfold lineageStep Step.wholeChildren Step.childPairs Step.parentPairs
          simp only [List.map_map]
          rfl
      | parents map => rfl
      | children map => rfl
      | metadata value => rfl

section Lineage
variable {pairs : Step → List (String × String)} {whole : Step → Option (KeyedSets String String)}

/-- Without a map of its own a run adds all pairs. -/
theorem foldl_lineage_added {steps : List Step} (h : ∀ step ∈ steps, whole step = none)
    (m : KeyedSets String String) :
    steps.foldl (lineageStep pairs whole) m = m.addAll (steps.flatMap pairs) := by
  induction steps generalizing m with
  | nil => rfl
  | cons step steps ih =>
      rw [List.foldl_cons, ih (fun step hstep => h step (List.mem_cons_of_mem _ hstep)),
        List.flatMap_cons, KeyedSets.addAll_append]
      unfold lineageStep
      rw [h step List.mem_cons_self]

/-- A run whose only map is `given` ends with it and pairs that came later. -/
theorem foldl_lineage_given {steps : List Step} {given : KeyedSets String String}
    (honly : ∀ step ∈ steps, ∀ map ∈ whole step, map = given)
    (hgiven : ∃ step ∈ steps, whole step = some given) (m : KeyedSets String String) :
    ∃ later, (∀ pair ∈ later, pair ∈ steps.flatMap pairs) ∧
      steps.foldl (lineageStep pairs whole) m = given.addAll later := by
  induction steps generalizing m with
  | nil =>
      obtain ⟨step, hstep, _⟩ := hgiven
      cases hstep
  | cons step steps ih =>
      have honly' : ∀ step ∈ steps, ∀ map ∈ whole step, map = given :=
        fun step hstep => honly step (List.mem_cons_of_mem _ hstep)
      by_cases hrest : ∃ step ∈ steps, whole step = some given
      · obtain ⟨later, hlater, hfold⟩ := ih honly' hrest (lineageStep pairs whole m step)
        refine ⟨later, ?_, hfold⟩
        intro pair hpair
        rw [List.flatMap_cons]
        exact List.mem_append_right _ (hlater pair hpair)
      · have hnone : ∀ step ∈ steps, whole step = none := by
          intro step hstep
          cases hwhole : whole step with
          | none => rfl
          | some map =>
              rw [honly' step hstep map hwhole] at hwhole
              exact absurd ⟨step, hstep, hwhole⟩ hrest
        have hhead : whole step = some given := by
          obtain ⟨first, hfirst, hwhole⟩ := hgiven
          cases List.mem_cons.mp hfirst with
          | inl heq => rw [← heq, hwhole]
          | inr htail => exact absurd ⟨first, htail, hwhole⟩ hrest
        refine ⟨steps.flatMap pairs, ?_, ?_⟩
        · intro pair hpair
          rw [List.flatMap_cons]
          exact List.mem_append_right _ hpair
        · rw [List.foldl_cons, foldl_lineage_added hnone]
          unfold lineageStep
          rw [hhead]

end Lineage

end DbtNova.ManifestParse
