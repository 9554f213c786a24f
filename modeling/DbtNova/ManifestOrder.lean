import DbtNova.ManifestSteps

/-!
# The order of the sections of a manifest

Each lineage map is built from the dependencies of all entities and from the map
that the manifest itself may give, which replaces what was there. Both maps are
instances of one shape, and for that shape the order of the sections does not
matter exactly when the given map covers the dependencies.
-/
namespace DbtNova.ManifestParse
open KeyedSets

/-- How one lineage map is made: the section that gives it whole, the pairs that a
step adds and the map that a step puts in its place. -/
structure Lineage where
  key : String
  pairs : Step → List (String × String)
  whole : Step → Option (KeyedSets String String)

def parentLineage : Lineage := ⟨"parent_map", Step.parentPairs, Step.wholeParents⟩

def childLineage : Lineage := ⟨"child_map", Step.childPairs, Step.wholeChildren⟩

/-- Only the section of the key gives a map, and it gives no pairs. -/
structure Lineage.Lawful (lineage : Lineage) : Prop where
  given : ∀ pruner catalogColumns entry map,
    (∃ step ∈ sectionSteps pruner catalogColumns entry, lineage.whole step = some map) ↔
      entry.1 = lineage.key ∧ givenMap entry.2 = some map
  silent : ∀ pruner catalogColumns entry, entry.1 = lineage.key →
    (sectionSteps pruner catalogColumns entry).flatMap lineage.pairs = []

section Sections
variable (pruner : Option ManifestPruner)
  (catalogColumns : Option CatalogColumns.CatalogColumnMap)

theorem sectionSteps_parent (value : JsonValue) :
    sectionSteps pruner catalogColumns ("parent_map", value) =
      (givenMap value).toList.map .parents := rfl

theorem sectionSteps_child (value : JsonValue) :
    sectionSteps pruner catalogColumns ("child_map", value) =
      (givenMap value).toList.map .children := rfl

/-- The other sections give entities and metadata only. -/
theorem sectionSteps_other {entry : String × JsonValue} (hparent : entry.1 ≠ "parent_map")
    (hchild : entry.1 ≠ "child_map") {step : Step}
    (h : step ∈ sectionSteps pruner catalogColumns entry) :
    step.wholeParents = none ∧ step.wholeChildren = none := by
  unfold sectionSteps at h
  cases hsection : manifestEntitySection entry.1 with
  | some kind =>
      rw [hsection] at h
      obtain ⟨entity, _, rfl⟩ := List.mem_map.mp h
      exact ⟨rfl, rfl⟩
  | none =>
      simp only [hsection, hparent, hchild, if_false] at h
      split at h
      · rw [List.mem_singleton.mp h]
        exact ⟨rfl, rfl⟩
      · cases h

end Sections

theorem parentLineage_lawful : parentLineage.Lawful where
  given := by
    intro pruner catalogColumns entry map
    obtain ⟨key, value⟩ := entry
    by_cases hparent : key = "parent_map"
    · simp [hparent, sectionSteps_parent, parentLineage, Step.wholeParents]
    · refine iff_of_false ?_ (fun h => hparent h.1)
      rintro ⟨step, hstep, hwhole⟩
      by_cases hchild : key = "child_map"
      · rw [hchild, sectionSteps_child] at hstep
        obtain ⟨other, _, rfl⟩ := List.mem_map.mp hstep
        cases hwhole
      · have hnone := (sectionSteps_other _ _ hparent hchild hstep).1
        rw [show step.wholeParents = some map from hwhole] at hnone
        cases hnone
  silent := by
    rintro pruner catalogColumns ⟨key, value⟩ rfl
    simp [sectionSteps_parent, parentLineage, List.flatMap_map, Step.parentPairs]

theorem childLineage_lawful : childLineage.Lawful where
  given := by
    intro pruner catalogColumns entry map
    obtain ⟨key, value⟩ := entry
    by_cases hchild : key = "child_map"
    · simp [hchild, sectionSteps_child, childLineage, Step.wholeChildren]
    · refine iff_of_false ?_ (fun h => hchild h.1)
      rintro ⟨step, hstep, hwhole⟩
      by_cases hparent : key = "parent_map"
      · rw [hparent, sectionSteps_parent] at hstep
        obtain ⟨other, _, rfl⟩ := List.mem_map.mp hstep
        cases hwhole
      · have hnone := (sectionSteps_other _ _ hparent hchild hstep).2
        rw [show step.wholeChildren = some map from hwhole] at hnone
        cases hnone
  silent := by
    rintro pruner catalogColumns ⟨key, value⟩ rfl
    simp [sectionSteps_child, childLineage, List.flatMap_map, Step.childPairs, Step.parentPairs]

section Order
variable (pruner : Option ManifestPruner)
  (catalogColumns : Option CatalogColumns.CatalogColumnMap)

/-- The map that the manifest gives under a key. -/
def ownMap (key : String) (sections : List (String × JsonValue)) :
    Option (KeyedSets String String) := (sections.lookup key).bind givenMap

def keptIds (sections : List (String × JsonValue)) : Finset String :=
  entityIds (manifestSteps pruner catalogColumns sections)

namespace Lineage
variable (lineage : Lineage)

def allPairs (sections : List (String × JsonValue)) : List (String × String) :=
  (manifestSteps pruner catalogColumns sections).flatMap lineage.pairs

def built (sections : List (String × JsonValue)) : KeyedSets String String :=
  (manifestSteps pruner catalogColumns sections).foldl
    (lineageStep lineage.pairs lineage.whole) KeyedSets.empty

/-- The map after pruning. -/
def final (sections : List (String × JsonValue)) : KeyedSets String String :=
  (lineage.built pruner catalogColumns sections).restrict
    (keptIds pruner catalogColumns sections) (keptIds pruner catalogColumns sections)

end Lineage

variable {pruner catalogColumns} {sections sections' : List (String × JsonValue)}

theorem manifestSteps_append :
    manifestSteps pruner catalogColumns (sections ++ sections') =
      manifestSteps pruner catalogColumns sections ++
        manifestSteps pruner catalogColumns sections' := List.flatMap_append

theorem manifestSteps_perm (h : sections.Perm sections') :
    (manifestSteps pruner catalogColumns sections).Perm
      (manifestSteps pruner catalogColumns sections') := h.flatMap_right _

theorem keptIds_perm (h : sections.Perm sections') :
    keptIds pruner catalogColumns sections = keptIds pruner catalogColumns sections' := by
  unfold keptIds entityIds
  exact List.toFinset_eq_of_perm _ _ ((manifestSteps_perm h).filterMap _)

theorem lookup_eq_some_iff (hkeys : (sections.map Prod.fst).Nodup) {key : String}
    {value : JsonValue} : sections.lookup key = some value ↔ (key, value) ∈ sections := by
  induction sections with
  | nil => simp
  | cons entry sections ih =>
      obtain ⟨first, other⟩ := entry
      rw [List.map_cons, List.nodup_cons] at hkeys
      rw [List.lookup_cons, List.mem_cons]
      by_cases hkey : key = first
      · have habsent : (first, value) ∉ sections := fun hmem =>
          hkeys.1 (List.mem_map.mpr ⟨_, hmem, rfl⟩)
        simp [hkey, habsent, eq_comm]
      · simp [hkey, ih hkeys.2, beq_eq_false_iff_ne.mpr hkey]

theorem ownMap_eq_some_iff (hkeys : (sections.map Prod.fst).Nodup) {key : String}
    {map : KeyedSets String String} :
    ownMap key sections = some map ↔
      ∃ value, (key, value) ∈ sections ∧ givenMap value = some map := by
  unfold ownMap
  rw [Option.bind_eq_some_iff]
  simp only [lookup_eq_some_iff hkeys]

theorem ownMap_perm (h : sections.Perm sections') (hkeys : (sections.map Prod.fst).Nodup)
    (key : String) : ownMap key sections = ownMap key sections' := by
  apply Option.ext
  intro map
  have hkeys' : (sections'.map Prod.fst).Nodup := (h.map Prod.fst).nodup_iff.mp hkeys
  simp only [ownMap_eq_some_iff hkeys, ownMap_eq_some_iff hkeys', h.mem_iff]

namespace Lineage
variable {lineage : Lineage}

theorem allPairs_append :
    lineage.allPairs pruner catalogColumns (sections ++ sections') =
      lineage.allPairs pruner catalogColumns sections ++
        lineage.allPairs pruner catalogColumns sections' := by
  unfold allPairs
  rw [manifestSteps_append, List.flatMap_append]

theorem allPairs_perm (h : sections.Perm sections') (pair : String × String) :
    pair ∈ lineage.allPairs pruner catalogColumns sections ↔
      pair ∈ lineage.allPairs pruner catalogColumns sections' :=
  ((manifestSteps_perm h).flatMap_right _).mem_iff

/-- The maps that the steps put in place are those that the sections give. -/
theorem Lawful.whole_iff (hlawful : lineage.Lawful) {map : KeyedSets String String} :
    (∃ step ∈ manifestSteps pruner catalogColumns sections, lineage.whole step = some map) ↔
      ∃ value, (lineage.key, value) ∈ sections ∧ givenMap value = some map := by
  unfold manifestSteps
  constructor
  · rintro ⟨step, hstep, hwhole⟩
    obtain ⟨entry, hentry, hmem⟩ := List.mem_flatMap.mp hstep
    obtain ⟨hkey, hgiven⟩ :=
      (hlawful.given pruner catalogColumns entry map).mp ⟨step, hmem, hwhole⟩
    rw [← hkey]
    exact ⟨entry.2, hentry, hgiven⟩
  · rintro ⟨value, hentry, hgiven⟩
    obtain ⟨step, hmem, hwhole⟩ :=
      (hlawful.given pruner catalogColumns (lineage.key, value) map).mpr ⟨rfl, hgiven⟩
    exact ⟨step, List.mem_flatMap.mpr ⟨_, hentry, hmem⟩, hwhole⟩

theorem Lawful.built_added (hlawful : lineage.Lawful) (hkeys : (sections.map Prod.fst).Nodup)
    (hnone : ownMap lineage.key sections = none) (m : KeyedSets String String) :
    (manifestSteps pruner catalogColumns sections).foldl
        (lineageStep lineage.pairs lineage.whole) m =
      m.addAll (lineage.allPairs pruner catalogColumns sections) := by
  apply foldl_lineage_added
  intro step hstep
  cases hwhole : lineage.whole step with
  | none => rfl
  | some map =>
      have hgiven := (ownMap_eq_some_iff hkeys).mpr (hlawful.whole_iff.mp ⟨step, hstep, hwhole⟩)
      rw [hnone] at hgiven
      cases hgiven

theorem Lawful.built_given (hlawful : lineage.Lawful) (hkeys : (sections.map Prod.fst).Nodup)
    {map : KeyedSets String String} (hgiven : ownMap lineage.key sections = some map)
    (m : KeyedSets String String) :
    ∃ later, (∀ pair ∈ later, pair ∈ lineage.allPairs pruner catalogColumns sections) ∧
      (manifestSteps pruner catalogColumns sections).foldl
          (lineageStep lineage.pairs lineage.whole) m = map.addAll later := by
  apply foldl_lineage_given
  · intro step hstep other hother
    have hother' := (ownMap_eq_some_iff hkeys).mpr (hlawful.whole_iff.mp ⟨step, hstep, hother⟩)
    rw [hgiven] at hother'
    exact (Option.some.inj hother').symm
  · exact hlawful.whole_iff.mpr ((ownMap_eq_some_iff hkeys).mp hgiven)

/-- The map covers what the entities depend on, as far as it survives pruning. -/
def CoversAll (pruner : Option ManifestPruner)
    (catalogColumns : Option CatalogColumns.CatalogColumnMap) (lineage : Lineage)
    (sections : List (String × JsonValue)) : Prop :=
  ∀ map, ownMap lineage.key sections = some map →
    Covers (keptIds pruner catalogColumns sections) (keptIds pruner catalogColumns sections) map
      (lineage.allPairs pruner catalogColumns sections)

theorem CoversAll.perm (h : sections.Perm sections') (hkeys : (sections.map Prod.fst).Nodup)
    (hcovers : lineage.CoversAll pruner catalogColumns sections) :
    lineage.CoversAll pruner catalogColumns sections' := by
  intro map hmap
  rw [← ownMap_perm h hkeys] at hmap
  rw [← keptIds_perm h]
  exact (hcovers map hmap).mono fun pair hpair => (allPairs_perm h pair).mpr hpair

/-- A map that covers everything is what is left, wherever it comes. -/
theorem Lawful.final_given (hlawful : lineage.Lawful) (hkeys : (sections.map Prod.fst).Nodup)
    (hcovers : lineage.CoversAll pruner catalogColumns sections) {map : KeyedSets String String}
    (hmap : ownMap lineage.key sections = some map) :
    lineage.final pruner catalogColumns sections =
      map.restrict (keptIds pruner catalogColumns sections)
        (keptIds pruner catalogColumns sections) := by
  obtain ⟨later, hlater, hbuilt⟩ := hlawful.built_given hkeys hmap KeyedSets.empty
  unfold final built
  rw [hbuilt]
  exact restrict_addAll_iff.mpr ((hcovers map hmap).mono hlater)

theorem Lawful.final_perm (hlawful : lineage.Lawful) (hkeys : (sections.map Prod.fst).Nodup)
    (hcovers : lineage.CoversAll pruner catalogColumns sections) (h : sections.Perm sections') :
    lineage.final pruner catalogColumns sections =
      lineage.final pruner catalogColumns sections' := by
  have hkeys' : (sections'.map Prod.fst).Nodup := (h.map Prod.fst).nodup_iff.mp hkeys
  have hown := ownMap_perm h hkeys lineage.key
  cases hmap : ownMap lineage.key sections with
  | some map =>
      rw [hlawful.final_given hkeys hcovers hmap,
        hlawful.final_given hkeys' (hcovers.perm h hkeys) (hown ▸ hmap), keptIds_perm h]
  | none =>
      unfold final built
      rw [hlawful.built_added hkeys hmap, hlawful.built_added hkeys' (hown ▸ hmap),
        addAll_congr KeyedSets.empty (allPairs_perm h), keptIds_perm h]

/-- The section of the key adds no pairs. -/
theorem Lawful.allPairs_front (hlawful : lineage.Lawful)
    (hfront : ∀ entry ∈ sections, entry.1 = lineage.key) :
    lineage.allPairs pruner catalogColumns sections = [] := by
  unfold allPairs manifestSteps
  rw [List.flatMap_eq_nil_iff]
  intro step hstep
  obtain ⟨entry, hentry, hmem⟩ := List.mem_flatMap.mp hstep
  have hsilent := hlawful.silent pruner catalogColumns entry (hfront entry hentry)
  exact List.flatMap_eq_nil_iff.mp hsilent step hmem

/-- With its own section first a map takes in what comes after it; with the section
last it stays as it is. -/
theorem Lawful.final_first_last (hlawful : lineage.Lawful) {front rest : List (String × JsonValue)}
    (hkeys : ((front ++ rest).map Prod.fst).Nodup)
    (hfront : ∀ entry ∈ front, entry.1 = lineage.key)
    (hrest : ∀ entry ∈ rest, entry.1 ≠ lineage.key) {map : KeyedSets String String}
    (hmap : ownMap lineage.key front = some map) :
    lineage.built pruner catalogColumns (front ++ rest) =
        map.addAll (lineage.allPairs pruner catalogColumns rest) ∧
      lineage.built pruner catalogColumns (rest ++ front) = map := by
  rw [List.map_append] at hkeys
  have hkeysFront := hkeys.of_append_left
  have hkeysRest := hkeys.of_append_right
  have hnone : ownMap lineage.key rest = none := by
    cases hother : ownMap lineage.key rest with
    | none => rfl
    | some other =>
        obtain ⟨value, hmem, _⟩ := (ownMap_eq_some_iff hkeysRest).mp hother
        exact absurd rfl (hrest _ hmem)
  have hown (m : KeyedSets String String) :
      (manifestSteps pruner catalogColumns front).foldl
        (lineageStep lineage.pairs lineage.whole) m = map := by
    obtain ⟨later, hlater, hbuilt⟩ := hlawful.built_given hkeysFront hmap m
    rw [hlawful.allPairs_front hfront] at hlater
    rw [hbuilt, List.eq_nil_iff_forall_not_mem.mpr fun pair hpair =>
      List.not_mem_nil (hlater pair hpair)]
    rfl
  unfold built
  rw [manifestSteps_append, manifestSteps_append, List.foldl_append, List.foldl_append, hown, hown,
    hlawful.built_added hkeysRest hnone]
  exact ⟨rfl, rfl⟩

variable (pruner catalogColumns) in
/-- The order of the sections does not matter for a map exactly when the manifest's own
map, if there is one, covers the dependencies. -/
theorem Lawful.final_perm_iff (hlawful : lineage.Lawful)
    (hkeys : (sections.map Prod.fst).Nodup) :
    (∀ sections', sections.Perm sections' →
        lineage.final pruner catalogColumns sections =
          lineage.final pruner catalogColumns sections') ↔
      lineage.CoversAll pruner catalogColumns sections := by
  constructor
  · intro hsame map hmap
    have hperm : sections.Perm
        (sections.filter (·.1 = lineage.key) ++ sections.filter (¬ ·.1 = lineage.key)) := by
      simpa using (List.filter_append_perm (·.1 = lineage.key) sections).symm
    have hfront : ∀ entry ∈ sections.filter (·.1 = lineage.key), entry.1 = lineage.key := by
      intro entry hentry
      simpa using (List.mem_filter.mp hentry).2
    have hrest : ∀ entry ∈ sections.filter (¬ ·.1 = lineage.key), entry.1 ≠ lineage.key := by
      intro entry hentry
      simpa using (List.mem_filter.mp hentry).2
    generalize sections.filter (·.1 = lineage.key) = front at hperm hfront
    generalize sections.filter (¬ ·.1 = lineage.key) = rest at hperm hrest
    have hkeys' : ((front ++ rest).map Prod.fst).Nodup := (hperm.map Prod.fst).nodup_iff.mp hkeys
    have hmapFront : ownMap lineage.key front = some map := by
      obtain ⟨value, hmem, hvalue⟩ := (ownMap_eq_some_iff hkeys).mp hmap
      have hkeysFront : (front.map Prod.fst).Nodup := by
        rw [List.map_append] at hkeys'
        exact hkeys'.of_append_left
      refine (ownMap_eq_some_iff hkeysFront).mpr ⟨value, ?_, hvalue⟩
      cases List.mem_append.mp (hperm.mem_iff.mp hmem) with
      | inl h => exact h
      | inr h => exact absurd rfl (hrest _ h)
    obtain ⟨hfirst, hlast⟩ : lineage.built pruner catalogColumns (front ++ rest) = _ ∧
        lineage.built pruner catalogColumns (rest ++ front) = _ :=
      hlawful.final_first_last hkeys' hfront hrest hmapFront
    have hswap : sections.Perm (rest ++ front) := hperm.trans List.perm_append_comm
    have hequal := (hsame _ hperm).symm.trans (hsame _ hswap)
    unfold final at hequal
    rw [hfirst, hlast, ← keptIds_perm hperm, ← keptIds_perm hswap] at hequal
    refine (restrict_addAll_iff.mp hequal).mono ?_
    intro pair hpair
    have hpair' := (allPairs_perm hperm pair).mp hpair
    rwa [allPairs_append, hlawful.allPairs_front hfront] at hpair'
  · intro hcovers sections' h
    exact hlawful.final_perm hkeys hcovers h

end Lineage
end Order
/-! The whole parse. -/

/-- Both parses fail, or both leave the same ids and the same lineage. -/
def SameLineage : Except ParseError ManifestAccumulator → Except ParseError ManifestAccumulator →
    Prop
  | .ok a, .ok b =>
      a.seenUniqueIds = b.seenUniqueIds ∧ a.parentMap = b.parentMap ∧ a.childMap = b.childMap
  | .error _, .error _ => True
  | _, _ => False

section Parse
variable (allowIds denyIds : List String)
  (catalogColumns : Option CatalogColumns.CatalogColumnMap) (buildStore : Bool)
  {sections sections' : List (String × JsonValue)}

theorem parseManifestFile_ok (acc result : ManifestAccumulator) :
    parseManifestFile allowIds denyIds catalogColumns acc sections = .ok result ↔
      (∀ entry ∈ sections, WellFormed entry) ∧
        result = ((manifestSteps (ManifestPruner.fromPatterns allowIds denyIds) catalogColumns
          sections).foldl Step.apply acc).pruneLineageMaps := by
  unfold parseManifestFile
  cases hvisit : visitMap (ManifestPruner.fromPatterns allowIds denyIds) catalogColumns acc
      sections with
  | error error =>
      constructor
      · intro h
        cases h
      · rintro ⟨hwell, _⟩
        have hok := (visitMap_ok (ManifestPruner.fromPatterns allowIds denyIds) catalogColumns
          sections acc _).mpr ⟨hwell, rfl⟩
        rw [hvisit] at hok
        cases hok
  | ok visited =>
      obtain ⟨hwell, hvisited⟩ := (visitMap_ok _ _ _ _ _).mp hvisit
      rw [Except.ok.injEq, ← hvisited, eq_comm]
      exact (and_iff_right hwell).symm

/-- The ids and the lineage that a parse leaves. -/
theorem parsed_lineage {result : ManifestAccumulator}
    (h : parseManifestFile allowIds denyIds catalogColumns (.new buildStore) sections =
      .ok result) :
    result.seenUniqueIds =
        keptIds (ManifestPruner.fromPatterns allowIds denyIds) catalogColumns sections ∧
      result.parentMap = parentLineage.final (ManifestPruner.fromPatterns allowIds denyIds)
        catalogColumns sections ∧
      result.childMap = childLineage.final (ManifestPruner.fromPatterns allowIds denyIds)
        catalogColumns sections := by
  obtain ⟨_, hresult⟩ := (parseManifestFile_ok _ _ _ _ _).mp h
  have hseen : ((manifestSteps (ManifestPruner.fromPatterns allowIds denyIds) catalogColumns
      sections).foldl Step.apply (.new buildStore)).seenUniqueIds =
        keptIds (ManifestPruner.fromPatterns allowIds denyIds) catalogColumns sections := by
    rw [foldl_seen]
    exact Finset.empty_union _
  rw [hresult]
  refine ⟨hseen, ?_, ?_⟩
  · unfold ManifestAccumulator.pruneLineageMaps
    simp only [hseen, foldl_parentMap]
    rfl
  · unfold ManifestAccumulator.pruneLineageMaps
    simp only [hseen, foldl_childMap]
    rfl

theorem sameLineage_iff (h : sections.Perm sections')
    (hwell : ∀ entry ∈ sections, WellFormed entry) :
    SameLineage (parseManifestFile allowIds denyIds catalogColumns (.new buildStore) sections)
        (parseManifestFile allowIds denyIds catalogColumns (.new buildStore) sections') ↔
      parentLineage.final (ManifestPruner.fromPatterns allowIds denyIds) catalogColumns sections =
          parentLineage.final (ManifestPruner.fromPatterns allowIds denyIds) catalogColumns
            sections' ∧
        childLineage.final (ManifestPruner.fromPatterns allowIds denyIds) catalogColumns sections =
          childLineage.final (ManifestPruner.fromPatterns allowIds denyIds) catalogColumns
            sections' := by
  have hwell' : ∀ entry ∈ sections', WellFormed entry :=
    fun entry hentry => hwell entry (h.mem_iff.mpr hentry)
  obtain ⟨result, hparse⟩ : ∃ result,
      parseManifestFile allowIds denyIds catalogColumns (.new buildStore) sections = .ok result :=
    ⟨_, (parseManifestFile_ok _ _ _ _ _).mpr ⟨hwell, rfl⟩⟩
  obtain ⟨result', hparse'⟩ : ∃ result,
      parseManifestFile allowIds denyIds catalogColumns (.new buildStore) sections' = .ok result :=
    ⟨_, (parseManifestFile_ok _ _ _ _ _).mpr ⟨hwell', rfl⟩⟩
  obtain ⟨hseen, hparent, hchild⟩ := parsed_lineage _ _ _ _ hparse
  obtain ⟨hseen', hparent', hchild'⟩ := parsed_lineage _ _ _ _ hparse'
  rw [hparse, hparse']
  simp only [SameLineage]
  rw [hseen, hseen', hparent, hparent', hchild, hchild', keptIds_perm h]
  exact and_iff_right rfl

theorem sameLineage_malformed (h : sections.Perm sections')
    (hwell : ¬ ∀ entry ∈ sections, WellFormed entry) :
    SameLineage (parseManifestFile allowIds denyIds catalogColumns (.new buildStore) sections)
      (parseManifestFile allowIds denyIds catalogColumns (.new buildStore) sections') := by
  cases hparse : parseManifestFile allowIds denyIds catalogColumns (.new buildStore) sections with
  | ok result => exact absurd ((parseManifestFile_ok _ _ _ _ _).mp hparse).1 hwell
  | error error =>
      cases hparse' : parseManifestFile allowIds denyIds catalogColumns (.new buildStore)
          sections' with
      | error error' => trivial
      | ok result =>
          have hwell' := ((parseManifestFile_ok _ _ _ _ _).mp hparse').1
          exact absurd (fun entry hentry => hwell' entry (h.mem_iff.mp hentry)) hwell

/-- The result does not depend on the order of the sections exactly when each map that
the manifest gives itself covers the dependencies of the kept entities. -/
theorem manifest_order_irrelevant_iff (hkeys : (sections.map Prod.fst).Nodup) :
    (∀ sections', sections.Perm sections' →
        SameLineage
          (parseManifestFile allowIds denyIds catalogColumns (.new buildStore) sections)
          (parseManifestFile allowIds denyIds catalogColumns (.new buildStore) sections')) ↔
      ((∀ entry ∈ sections, WellFormed entry) →
        parentLineage.CoversAll (ManifestPruner.fromPatterns allowIds denyIds) catalogColumns
            sections ∧
          childLineage.CoversAll (ManifestPruner.fromPatterns allowIds denyIds) catalogColumns
            sections) := by
  by_cases hwell : ∀ entry ∈ sections, WellFormed entry
  · rw [← parentLineage_lawful.final_perm_iff _ _ hkeys,
      ← childLineage_lawful.final_perm_iff _ _ hkeys]
    constructor
    · intro hsame _
      exact ⟨fun sections' h =>
          ((sameLineage_iff _ _ _ _ h hwell).mp (hsame sections' h)).1,
        fun sections' h => ((sameLineage_iff _ _ _ _ h hwell).mp (hsame sections' h)).2⟩
    · intro hboth sections' h
      exact (sameLineage_iff _ _ _ _ h hwell).mpr
        ⟨(hboth hwell).1 sections' h, (hboth hwell).2 sections' h⟩
  · constructor
    · intro _ hall
      exact absurd hall hwell
    · intro _ sections' h
      exact sameLineage_malformed _ _ _ _ h hwell

end Parse

/-- `model.b` depends on `model.a`. -/
def twoModels : String × JsonValue :=
  ("nodes", .object
    [("model.a", .object []),
      ("model.b", .object
        [("depends_on", .object [("nodes", .array [.string "model.a"])])])])

/-- A map that leaves `model.b` out. -/
def shortParentMap : String × JsonValue := ("parent_map", .object [("model.a", .array [])])

theorem manifest_order_irrelevant_twoModels :
    SameLineage
      (parseManifestFile [] [] none (.new true) [twoModels, ("metadata", .null)])
      (parseManifestFile [] [] none (.new true) [("metadata", .null), twoModels]) := by
  refine (manifest_order_irrelevant_iff [] [] none true (by decide)).mpr (fun _ => ⟨?_, ?_⟩)
    [("metadata", .null), twoModels] (.swap _ _ [])
  · intro map hmap
    cases hmap
  · intro map hmap
    cases hmap

theorem SameLineage.parents {a b : Except ParseError ManifestAccumulator} (h : SameLineage a b)
    (key : String) :
    a.toOption.map (·.parentMap key) = b.toOption.map (·.parentMap key) := by
  cases a with
  | error error =>
      cases b with
      | error error' => rfl
      | ok result => exact h.elim
  | ok result =>
      cases b with
      | error error' => exact h.elim
      | ok result' => exact congrArg some (congrFun h.2.1 key)

/-- The same manifest with its own map last and first. -/
theorem own_map_first_or_last :
    [twoModels, shortParentMap].Perm [shortParentMap, twoModels] ∧
      ¬ SameLineage
        (parseManifestFile [] [] none (.new false) [twoModels, shortParentMap])
        (parseManifestFile [] [] none (.new false) [shortParentMap, twoModels]) := by
  refine ⟨List.Perm.swap _ _ _, ?_⟩
  intro h
  exact absurd (h.parents "model.b") (by decide)

end DbtNova.ManifestParse
