import DbtNova.ManifestOrder

/-!
# The maps of the accumulator agree

An invariant of the steps for the counts and the indexes, and the two lineage maps
as two views of one list of pairs. Only a repeated entity can disturb them, by the
dependencies it records although it is skipped.
-/
namespace DbtNova.ManifestParse
open KeyedSets ManifestAccumulator

/-- Each id that was seen is in the list of one key, once, and nothing else is. -/
structure Indexed (seen : Finset String) (index : String → List String) : Prop where
  once : ∀ id ∈ seen, ∃ key, (index key).count id = 1 ∧ ∀ other ≠ key, id ∉ index other
  known : ∀ key, ∀ id ∈ index key, id ∈ seen

/-- What the entities leave behind. -/
structure Counted (acc : ManifestAccumulator) : Prop where
  names : Indexed acc.seenUniqueIds acc.nameToKeys
  packages : Indexed acc.seenUniqueIds acc.byPackage
  typed : ∀ t, ∀ id ∈ acc.byResourceType t, id ∈ acc.seenUniqueIds
  distinct : ∀ t, (acc.byResourceType t).Nodup
  counts : ∀ t, acc.entityCounts t = (acc.byResourceType t).length

theorem mem_push {index : String → List String} {key uniqueId id k : String} :
    id ∈ push index key uniqueId k ↔ id ∈ index k ∨ (k = key ∧ id = uniqueId) := by
  unfold push
  by_cases hk : k = key
  · simp [hk]
  · simp [hk]

theorem Indexed.push {seen : Finset String} {index : String → List String}
    (h : Indexed seen index) {uniqueId : String} (hnew : uniqueId ∉ seen) (key : String) :
    Indexed (insert uniqueId seen) (ManifestAccumulator.push index key uniqueId) where
  once := by
    intro id hid
    cases Finset.mem_insert.mp hid with
    | inl heq =>
        refine ⟨key, ?_, ?_⟩
        · have habsent : (index key).count id = 0 :=
            List.count_eq_zero.mpr fun hmem => hnew (heq ▸ h.known key id hmem)
          unfold ManifestAccumulator.push
          rw [if_pos rfl, List.count_append, habsent, heq, List.count_singleton_self]
        · intro other hother hmem
          cases mem_push.mp hmem with
          | inl hold => exact hnew (heq ▸ h.known other id hold)
          | inr hpushed => exact hother hpushed.1
    | inr hseen =>
        have hne : id ≠ uniqueId := fun heq => hnew (heq ▸ hseen)
        obtain ⟨place, hcount, helse⟩ := h.once id hseen
        refine ⟨place, ?_, ?_⟩
        · unfold ManifestAccumulator.push
          split
          · rw [List.count_append, hcount, List.count_singleton]
            simp [Ne.symm hne]
          · exact hcount
        · intro other hother hmem
          cases mem_push.mp hmem with
          | inl hold => exact helse other hother hold
          | inr hpushed => exact hne hpushed.2
  known := by
    intro k id hmem
    cases mem_push.mp hmem with
    | inl hold => exact Finset.mem_insert_of_mem (h.known k id hold)
    | inr hpushed =>
        rw [hpushed.2]
        exact Finset.mem_insert_self uniqueId seen

theorem Counted.added {acc added : ManifestAccumulator} {uniqueId : String} (h : Counted acc)
    (hnew : uniqueId ∉ acc.seenUniqueIds) (hadded : Added acc added uniqueId) :
    Counted added := by
  obtain ⟨hseen, ⟨package, hpackages⟩, ⟨name, hnames⟩, _, _, htypes⟩ := hadded
  constructor
  · rw [hseen, hnames]
    exact h.names.push hnew name
  · rw [hseen, hpackages]
    exact h.packages.push hnew package
  · intro t id hmem
    rw [hseen]
    rcases htypes with ⟨htype, _⟩ | ⟨resourceType, htype, _⟩
    · rw [htype] at hmem
      exact Finset.mem_insert_of_mem (h.typed t id hmem)
    · rw [htype] at hmem
      cases mem_push.mp hmem with
      | inl hold => exact Finset.mem_insert_of_mem (h.typed t id hold)
      | inr hpushed =>
          rw [hpushed.2]
          exact Finset.mem_insert_self uniqueId _
  · intro t
    rcases htypes with ⟨htype, _⟩ | ⟨resourceType, htype, _⟩
    · rw [htype]
      exact h.distinct t
    · rw [htype]
      unfold ManifestAccumulator.push
      split
      · refine List.nodup_append.mpr ⟨h.distinct t, List.nodup_singleton uniqueId, ?_⟩
        intro a ha b hb hab
        rw [List.mem_singleton.mp hb] at hab
        exact hnew (hab ▸ h.typed t a ha)
      · exact h.distinct t
  · intro t
    rcases htypes with ⟨htype, hcounts⟩ | ⟨resourceType, htype, hcounts⟩
    · rw [htype, hcounts]
      exact h.counts t
    · rw [htype, hcounts]
      unfold ManifestAccumulator.push
      by_cases ht : t = resourceType
      · simp [ht, h.counts]
      · simp [ht, h.counts]

theorem Counted.apply {acc : ManifestAccumulator} (h : Counted acc) (step : Step) :
    Counted (step.apply acc) := by
  cases step with
  | entity forced uniqueId payload =>
      rw [Step.apply_entity]
      by_cases hseen : uniqueId ∈ acc.seenUniqueIds
      · rw [addEntity_seen acc uniqueId payload forced hseen]
        exact ⟨h.names, h.packages, h.typed, h.distinct, h.counts⟩
      · have hcounted := h.added hseen (addEntity_new acc uniqueId payload forced hseen)
        exact ⟨hcounted.names, hcounted.packages, hcounted.typed, hcounted.distinct,
          hcounted.counts⟩
  | parents map => exact ⟨h.names, h.packages, h.typed, h.distinct, h.counts⟩
  | children map => exact ⟨h.names, h.packages, h.typed, h.distinct, h.counts⟩
  | metadata value => exact ⟨h.names, h.packages, h.typed, h.distinct, h.counts⟩

theorem Counted.foldl {acc : ManifestAccumulator} (h : Counted acc) (steps : List Step) :
    Counted (steps.foldl Step.apply acc) := by
  induction steps generalizing acc with
  | nil => exact h
  | cons step steps ih => exact ih (h.apply step)

theorem counted_new (buildStore : Bool) : Counted (.new buildStore) where
  names :=
    ⟨fun _ hid => absurd hid (Finset.notMem_empty _), fun _ _ hid => absurd hid List.not_mem_nil⟩
  packages :=
    ⟨fun _ hid => absurd hid (Finset.notMem_empty _), fun _ _ hid => absurd hid List.not_mem_nil⟩
  typed := fun _ _ hid => absurd hid List.not_mem_nil
  distinct := fun _ => List.nodup_nil
  counts := fun _ => rfl

/-! The lineage maps. -/

/-- The relations between the maps that the tools rely on. -/
structure Consistent (acc : ManifestAccumulator) : Prop where
  converse : ∀ c p, p ∈ acc.parentMap.values c ↔ c ∈ acc.childMap.values p
  parentKeys : ∀ c, (acc.parentMap c).isSome → c ∈ acc.seenUniqueIds
  parentMembers : ∀ c, ∀ p ∈ acc.parentMap.values c, p ∈ acc.seenUniqueIds
  childKeys : ∀ p, (acc.childMap p).isSome → p ∈ acc.seenUniqueIds
  childMembers : ∀ p, ∀ c ∈ acc.childMap.values p, c ∈ acc.seenUniqueIds
  counted : Counted acc

/-- No step puts a whole map in place. -/
def Ownless (steps : List Step) : Prop :=
  ∀ step ∈ steps, step.wholeParents = none ∧ step.wholeChildren = none

theorem Ownless.lineage {steps : List Step} (h : Ownless steps) (buildStore : Bool) :
    (steps.foldl Step.apply (.new buildStore)).parentMap =
        KeyedSets.empty.addAll (parentPairs steps) ∧
      (steps.foldl Step.apply (.new buildStore)).childMap =
        KeyedSets.empty.addAll (childPairs steps) := by
  rw [foldl_parentMap, foldl_childMap,
    foldl_lineage_added (fun step hstep => (h step hstep).1),
    foldl_lineage_added (fun step hstep => (h step hstep).2)]
  refine ⟨rfl, ?_⟩
  unfold childPairs parentPairs
  rw [List.map_flatMap]
  rfl

theorem mem_empty_addAll {pairs : List (String × String)} {k v : String} :
    v ∈ (KeyedSets.empty.addAll pairs).values k ↔ (k, v) ∈ pairs := by
  rw [mem_addAll]
  exact or_iff_right (Finset.notMem_empty v)

theorem Ownless.consistent {steps : List Step} (h : Ownless steps) (buildStore : Bool) :
    Consistent (steps.foldl Step.apply (.new buildStore)).pruneLineageMaps := by
  obtain ⟨hparents, hchildren⟩ := h.lineage buildStore
  have hcounted := (counted_new buildStore).foldl steps
  unfold pruneLineageMaps
  rw [hparents, hchildren]
  constructor
  · intro c p
    simp only [mem_restrict, mem_empty_addAll, mem_childPairs]
    exact and_left_comm
  · intro c hc
    exact ((restrict_isSome _ c).mp hc).1
  · intro c p hp
    exact ((mem_restrict _ c p).mp hp).2.1
  · intro p hp
    exact ((restrict_isSome _ p).mp hp).1
  · intro p c hc
    exact ((mem_restrict _ p c).mp hc).2.1
  · exact ⟨hcounted.names, hcounted.packages, hcounted.typed, hcounted.distinct, hcounted.counts⟩

/-! Repeated entities. -/

/-- Whenever an entity comes whose id was seen, the accumulator stays as it is. -/
def RepeatsInert (buildStore : Bool) (steps : List Step) : Prop :=
  ∀ front forced uniqueId payload rest,
    steps = front ++ .entity forced uniqueId payload :: rest →
    uniqueId ∈ (front.foldl Step.apply (.new buildStore)).seenUniqueIds →
    (Step.entity forced uniqueId payload).apply (front.foldl Step.apply (.new buildStore)) =
      front.foldl Step.apply (.new buildStore)

/-- A repeated entity depends on nothing that those before it with its id do not. -/
def RepeatsNothingNew (steps : List Step) : Prop :=
  ∀ front forced uniqueId payload rest,
    steps = front ++ .entity forced uniqueId payload :: rest → uniqueId ∈ entityIds front →
    ∀ depId ∈ dependencyIds payload, (uniqueId, depId) ∈ parentPairs front

theorem seen_new (buildStore : Bool) (steps : List Step) :
    (steps.foldl Step.apply (.new buildStore)).seenUniqueIds = entityIds steps := by
  rw [foldl_seen]
  exact Finset.empty_union _

/-- A repeated entity leaves the accumulator as it is exactly when its dependencies are
already recorded. -/
theorem apply_repeated_iff {acc : ManifestAccumulator} {forced : Option String}
    {uniqueId : String} {payload : JsonValue} (h : uniqueId ∈ acc.seenUniqueIds) :
    (Step.entity forced uniqueId payload).apply acc = acc ↔
      acc.parentMap.addAll ((dependencyIds payload).map (uniqueId, ·)) = acc.parentMap ∧
        acc.childMap.addAll ((dependencyIds payload).map (·, uniqueId)) = acc.childMap := by
  rw [Step.apply_entity, addEntity_seen acc uniqueId payload forced h]
  constructor
  · intro heq
    exact ⟨congrArg ManifestAccumulator.parentMap heq, congrArg ManifestAccumulator.childMap heq⟩
  · rintro ⟨hparents, hchildren⟩
    rw [hparents, hchildren]

theorem recorded_iff {steps : List Step} (h : Ownless steps) (buildStore : Bool)
    {uniqueId : String} {payload : JsonValue} :
    ((steps.foldl Step.apply (.new buildStore)).parentMap.addAll
          ((dependencyIds payload).map (uniqueId, ·)) =
        (steps.foldl Step.apply (.new buildStore)).parentMap ∧
      (steps.foldl Step.apply (.new buildStore)).childMap.addAll
          ((dependencyIds payload).map (·, uniqueId)) =
        (steps.foldl Step.apply (.new buildStore)).childMap) ↔
      ∀ depId ∈ dependencyIds payload, (uniqueId, depId) ∈ parentPairs steps := by
  obtain ⟨hparents, hchildren⟩ := h.lineage buildStore
  rw [hparents, hchildren, addAll_eq_self_iff, addAll_eq_self_iff]
  simp only [mem_empty_addAll, mem_childPairs, List.mem_map, Prod.mk.injEq]
  constructor
  · rintro ⟨hrecorded, _⟩ depId hdep
    exact hrecorded uniqueId depId ⟨depId, hdep, rfl, rfl⟩
  · intro hrecorded
    constructor
    · rintro k v ⟨depId, hdep, rfl, rfl⟩
      exact hrecorded depId hdep
    · rintro k v ⟨depId, hdep, rfl, rfl⟩
      exact hrecorded depId hdep

theorem repeatsInert_iff {steps : List Step} (h : Ownless steps) (buildStore : Bool) :
    RepeatsInert buildStore steps ↔ RepeatsNothingNew steps := by
  have hstep (front : List Step) (forced : Option String) (uniqueId : String)
      (payload : JsonValue) (rest : List Step)
      (hsteps : steps = front ++ .entity forced uniqueId payload :: rest)
      (hseen : uniqueId ∈ entityIds front) :
      (Step.entity forced uniqueId payload).apply (front.foldl Step.apply (.new buildStore)) =
          front.foldl Step.apply (.new buildStore) ↔
        ∀ depId ∈ dependencyIds payload, (uniqueId, depId) ∈ parentPairs front := by
    have hfront : Ownless front := by
      intro step hmem
      exact h step (hsteps ▸ List.mem_append_left _ hmem)
    rw [← seen_new buildStore] at hseen
    rw [apply_repeated_iff hseen, recorded_iff hfront]
  constructor
  · intro hinert front forced uniqueId payload rest hsteps hseen
    apply (hstep front forced uniqueId payload rest hsteps hseen).mp
    rw [← seen_new buildStore] at hseen
    exact hinert front forced uniqueId payload rest hsteps hseen
  · intro hnothing front forced uniqueId payload rest hsteps hseen
    rw [seen_new] at hseen
    exact (hstep front forced uniqueId payload rest hsteps hseen).mpr
      (hnothing front forced uniqueId payload rest hsteps hseen)

/-- Sections other than the two maps never put a map in place. -/
theorem ownless_manifestSteps {pruner : Option ManifestPruner}
    {catalogColumns : Option CatalogColumns.CatalogColumnMap}
    {sections : List (String × JsonValue)}
    (h : ∀ entry ∈ sections, entry.1 ≠ "parent_map" ∧ entry.1 ≠ "child_map") :
    Ownless (manifestSteps pruner catalogColumns sections) := by
  intro step hstep
  obtain ⟨entry, hentry, hmem⟩ := List.mem_flatMap.mp hstep
  exact sectionSteps_other _ _ (h entry hentry).1 (h entry hentry).2 hmem

/-- Without maps of its own a manifest leaves an accumulator whose maps agree, and its
repeated entities change nothing exactly when they depend on nothing new. -/
theorem accumulator_consistent_iff (allowIds denyIds : List String)
    (catalogColumns : Option CatalogColumns.CatalogColumnMap) (buildStore : Bool)
    {sections : List (String × JsonValue)} {acc : ManifestAccumulator}
    (hmaps : ∀ entry ∈ sections, entry.1 ≠ "parent_map" ∧ entry.1 ≠ "child_map")
    (hparse : parseManifestFile allowIds denyIds catalogColumns (.new buildStore) sections =
      .ok acc) :
    (Consistent acc ∧ RepeatsInert buildStore
        (manifestSteps (ManifestPruner.fromPatterns allowIds denyIds) catalogColumns sections)) ↔
      RepeatsNothingNew
        (manifestSteps (ManifestPruner.fromPatterns allowIds denyIds) catalogColumns sections) := by
  have hownless : Ownless
      (manifestSteps (ManifestPruner.fromPatterns allowIds denyIds) catalogColumns sections) :=
    ownless_manifestSteps hmaps
  rw [((parseManifestFile_ok _ _ _ _ _).mp hparse).2, repeatsInert_iff hownless]
  exact and_iff_right (hownless.consistent buildStore)

def dependingOn (depId : String) : JsonValue :=
  .object [("depends_on", .object [("nodes", .array [.string depId])])]

/-- One model in its section. -/
def oneModel : List (String × JsonValue) :=
  [("nodes", .object [("model.b", dependingOn "model.a")]), ("metadata", .null)]

theorem accumulator_consistent_oneModel :
    Consistent ((manifestSteps none none oneModel).foldl Step.apply
        (.new true)).pruneLineageMaps ∧
      RepeatsInert true (manifestSteps none none oneModel) := by
  refine (accumulator_consistent_iff [] [] none true ?_
    ((parseManifestFile_ok _ _ _ _ _).mpr ⟨?_, rfl⟩)).mpr ?_
  · decide
  · intro entry hentry
    cases hentry with
    | head => exact .inr rfl
    | tail _ hentry =>
        rw [List.mem_singleton.mp hentry]
        rintro (h | h)
        · exact absurd h (by decide)
        · exact absurd h (by decide)
  · intro front forced uniqueId payload rest hsteps hseen
    cases front with
    | nil => exact absurd hseen (Finset.notMem_empty uniqueId)
    | cons step front =>
        have hlength : 1 = _ := congrArg List.length hsteps
        simp only [List.cons_append, List.length_cons, List.length_append] at hlength
        omega

/-- The same id as a model and as a source, with different dependencies. -/
def modelAndSource : List (String × JsonValue) :=
  [("nodes", .object [("model.a", .object []), ("model.b", dependingOn "model.a")]),
    ("sources", .object [("model.c", .object []), ("model.b", dependingOn "model.c")])]

/-- The second entity is skipped, and its dependencies are recorded. -/
theorem skipped_entity_recorded :
    (parseManifestFile [] [] none (.new true) modelAndSource).toOption.map
        (fun acc => (acc.parentMap "model.b", acc.entityCounts "source")) =
        some (some {"model.a", "model.c"}, 1) ∧
      ¬ RepeatsInert true (manifestSteps none none modelAndSource) := by
  refine ⟨by decide, ?_⟩
  intro h
  have hsame := h
    [.entity none "model.a" (.object []), .entity none "model.b" (dependingOn "model.a"),
      .entity (some "source") "model.c" (.object [])]
    (some "source") "model.b" (dependingOn "model.c") [] rfl (by decide)
  have hparents := congrArg (fun acc => acc.parentMap.values "model.b") hsame
  exact absurd hparents (by decide)

end DbtNova.ManifestParse
