import DbtNova.Glob
import DbtNova.ManifestOrder

/-!
# What pruning keeps

The allow and deny patterns of `ManifestPruner` in `loader/parse.rs`, read as the sets of ids
they stand for, and the ids that a parse keeps with them.
-/
namespace DbtNova.ManifestPruning
open JsonValue PathIndex ManifestParse ManifestPruner Glob

/-- A pattern of the configuration that is not blank stands for the id. -/
def StandsFor (pattern uniqueId : String) : Prop :=
  Text.trim pattern ≠ "" ∧
    Denotes true (stripLeadingDotSlash (Text.trim pattern).toList)
      (stripLeadingDotSlash uniqueId.toList)

def Denied (denyIds : List String) (uniqueId : String) : Prop :=
  ∃ pattern ∈ denyIds, StandsFor pattern uniqueId

/-- The allow list has no pattern that is not blank, or one of them stands for the id. -/
def Allowed (allowIds : List String) (uniqueId : String) : Prop :=
  (∀ pattern ∈ allowIds, Text.trim pattern = "") ∨
    ∃ pattern ∈ allowIds, StandsFor pattern uniqueId

def Wanted (allowIds denyIds : List String) (uniqueId : String) : Prop :=
  Allowed allowIds uniqueId ∧ ¬ Denied denyIds uniqueId

/-- An analysis with dependencies, all of which are wanted. -/
structure AutoIncluded (allowIds denyIds : List String) (uniqueId : String)
    (payload : JsonValue) (dependencies : List JsonValue) : Prop where
  isAnalysis : payload.getStr "resource_type" = some "analysis"
  notDenied : ¬ Denied denyIds uniqueId
  dependsOn : dependsOnNodes payload = some dependencies
  nonempty : dependencies ≠ []
  wanted : ∀ value ∈ dependencies, ∃ depId, value = .string depId ∧ Wanted allowIds denyIds depId

/-- The entities of a manifest, from all its sections. -/
def EntityOf (sections : List (String × JsonValue)) (uniqueId : String) (payload : JsonValue) :
    Prop :=
  ∃ key kind entities, (key, .object entities) ∈ sections ∧
    manifestEntitySection key = some kind ∧ (uniqueId, payload) ∈ entities

/-- The documented set. -/
def Documented (allowIds denyIds : List String) (sections : List (String × JsonValue))
    (uniqueId : String) : Prop :=
  ∃ payload, EntityOf sections uniqueId payload ∧
    (Wanted allowIds denyIds uniqueId ∨
      ∃ dependencies, AutoIncluded allowIds denyIds uniqueId payload dependencies)

section Patterns
variable {allowIds denyIds patterns : List String} {uniqueId : String} {payload : JsonValue}

theorem any_compilePatterns :
    (compilePatterns patterns).any (globMatchCompiled · uniqueId.toList) = true ↔
      ∃ pattern ∈ patterns, StandsFor pattern uniqueId := by
  unfold compilePatterns StandsFor
  rw [List.any_map, List.any_filter, List.any_map, List.any_eq_true]
  simp only [Function.comp_apply, Bool.and_eq_true, decide_eq_true_eq, globMatch_denotes]

theorem compilePatterns_isEmpty :
    (compilePatterns patterns).isEmpty = true ↔ ∀ pattern ∈ patterns, Text.trim pattern = "" := by
  unfold compilePatterns
  rw [List.isEmpty_iff, List.map_eq_nil_iff, List.filter_eq_nil_iff, List.forall_mem_map]
  simp only [ne_eq, decide_not, Bool.not_eq_true', decide_eq_false_iff_not, not_not]

/-- The patterns of a configuration. -/
def patternsOf (allowIds denyIds : List String) : ManifestPruner :=
  ⟨compilePatterns allowIds, compilePatterns denyIds⟩

theorem matchesDeny_iff :
    (patternsOf allowIds denyIds).matchesDeny uniqueId = true ↔ Denied denyIds uniqueId :=
  any_compilePatterns

theorem keepByAllowDeny_iff :
    (patternsOf allowIds denyIds).keepByAllowDeny uniqueId = true ↔
      Wanted allowIds denyIds uniqueId := by
  have hdeny : (patternsOf allowIds denyIds).matchesDeny uniqueId = true ↔
      Denied denyIds uniqueId := matchesDeny_iff
  unfold keepByAllowDeny Wanted Allowed
  rw [Bool.and_eq_true, Bool.or_eq_true, Bool.not_eq_true', ← hdeny, Bool.not_eq_true]
  exact and_congr_left' (or_congr compilePatterns_isEmpty any_compilePatterns)

theorem shouldAutoIncludeAnalysis_iff :
    (patternsOf allowIds denyIds).shouldAutoIncludeAnalysis payload = true ↔
      ∃ dependencies, dependsOnNodes payload = some dependencies ∧ dependencies ≠ [] ∧
        ∀ value ∈ dependencies, ∃ depId, value = .string depId ∧
          Wanted allowIds denyIds depId := by
  have hvalue : ∀ value : JsonValue,
      value.asStr.any (patternsOf allowIds denyIds).keepByAllowDeny = true ↔
        ∃ depId, value = .string depId ∧ Wanted allowIds denyIds depId := by
    intro value
    cases value <;> simp [asStr, keepByAllowDeny_iff]
  unfold shouldAutoIncludeAnalysis
  cases dependsOnNodes payload with
  | none => simp
  | some dependencies =>
      dsimp only
      rw [Bool.and_eq_true, List.all_eq_true, Bool.not_eq_true', List.isEmpty_eq_false_iff]
      simp only [hvalue, Option.some.injEq, exists_eq_left', ne_eq]

end Patterns

/-! ## The ids of a parse -/

section Parse
variable {allowIds denyIds : List String}
  {catalogColumns : Option CatalogColumns.CatalogColumnMap} {buildStore : Bool}
  {sections sections' : List (String × JsonValue)} {uniqueId : String} {payload : JsonValue}

/-- No section makes its entities analyses. -/
theorem forced_not_analysis {key : String} {kind : ManifestEntitySection}
    (h : manifestEntitySection key = some kind) : kind.forced ≠ some "analysis" := by
  unfold manifestEntitySection at h
  split at h <;> first | contradiction | (cases Option.some.inj h; decide)

/-- The decision about one entity. -/
theorem keeps_iff {forced : Option String} (hforced : forced ≠ some "analysis") :
    keeps (fromPatterns allowIds denyIds) forced uniqueId payload = true ↔
      Wanted allowIds denyIds uniqueId ∨
        ∃ dependencies, AutoIncluded allowIds denyIds uniqueId payload dependencies := by
  unfold keeps fromPatterns
  dsimp only
  by_cases hnone : ((compilePatterns allowIds).isEmpty && (compilePatterns denyIds).isEmpty) = true
  · rw [if_pos hnone]
    rw [Bool.and_eq_true, compilePatterns_isEmpty, compilePatterns_isEmpty] at hnone
    refine iff_of_true rfl (Or.inl ⟨Or.inl hnone.1, ?_⟩)
    rintro ⟨pattern, hpattern, hblank, -⟩
    exact hblank (hnone.2 pattern hpattern)
  · rw [if_neg hnone]
    change (patternsOf allowIds denyIds).shouldKeepEntity uniqueId payload forced = true ↔ _
    unfold shouldKeepEntity
    by_cases hwanted : (patternsOf allowIds denyIds).keepByAllowDeny uniqueId = true
    · rw [if_pos hwanted]
      exact iff_of_true rfl (Or.inl (keepByAllowDeny_iff.mp hwanted))
    · rw [if_neg hwanted, or_iff_right (fun h => hwanted (keepByAllowDeny_iff.mpr h))]
      have hanalysis : isAnalysis payload forced = true ↔
          payload.getStr "resource_type" = some "analysis" := by
        unfold isAnalysis
        rw [Bool.or_eq_true, beq_iff_eq, beq_iff_eq, or_iff_right hforced]
      by_cases hstop : ((patternsOf allowIds denyIds).matchesDeny uniqueId ||
          !isAnalysis payload forced) = true
      · rw [if_pos hstop]
        refine iff_of_false Bool.false_ne_true ?_
        rintro ⟨dependencies, hauto⟩
        rw [Bool.or_eq_true, Bool.not_eq_true', matchesDeny_iff] at hstop
        cases hstop with
        | inl hdenied => exact hauto.notDenied hdenied
        | inr hother =>
            rw [hanalysis.mpr hauto.isAnalysis] at hother
            contradiction
      · rw [if_neg hstop, shouldAutoIncludeAnalysis_iff]
        rw [Bool.or_eq_true, Bool.not_eq_true', matchesDeny_iff, not_or, Bool.not_eq_false,
          hanalysis] at hstop
        constructor
        · rintro ⟨dependencies, hdepends, hnonempty, hall⟩
          exact ⟨dependencies, hstop.2, hstop.1, hdepends, hnonempty, hall⟩
        · rintro ⟨dependencies, hauto⟩
          exact ⟨dependencies, hauto.dependsOn, hauto.nonempty, hauto.wanted⟩

/-- Outside the sections of entities no step has an id. -/
theorem uniqueId_of_no_entities {pruner : Option ManifestPruner} {entry : String × JsonValue}
    {step : Step} (hkind : manifestEntitySection entry.1 = none)
    (hstep : step ∈ sectionSteps pruner catalogColumns entry) : step.uniqueId? = none := by
  unfold sectionSteps at hstep
  rw [hkind] at hstep
  dsimp only at hstep
  split at hstep
  · obtain ⟨map, -, rfl⟩ := List.mem_map.mp hstep
    rfl
  · split at hstep
    · obtain ⟨map, -, rfl⟩ := List.mem_map.mp hstep
      rfl
    · split at hstep
      · rw [List.mem_singleton.mp hstep]
        rfl
      · exact absurd hstep List.not_mem_nil

/-- The ids of the steps of a manifest are those of its entities that are kept. -/
theorem mem_keptIds {pruner : Option ManifestPruner} :
    uniqueId ∈ keptIds pruner catalogColumns sections ↔
      ∃ key kind entities payload, (key, .object entities) ∈ sections ∧
        manifestEntitySection key = some kind ∧ (uniqueId, payload) ∈ entities ∧
        keeps pruner kind.forced uniqueId payload = true := by
  unfold keptIds entityIds manifestSteps
  simp only [List.mem_toFinset, List.mem_filterMap, List.mem_flatMap]
  constructor
  · rintro ⟨step, ⟨⟨key, value⟩, hentry, hstep⟩, hid⟩
    cases hkind : manifestEntitySection key with
    | some kind =>
        unfold sectionSteps at hstep
        dsimp only at hstep
        rw [hkind] at hstep
        obtain ⟨⟨id, payload⟩, hkept, rfl⟩ := List.mem_map.mp hstep
        obtain ⟨hmem, hkeeps⟩ := List.mem_filter.mp hkept
        cases Option.some.inj hid
        cases value with
        | object entities => exact ⟨key, kind, entities, payload, hentry, hkind, hmem, hkeeps⟩
        | null => exact absurd hmem List.not_mem_nil
        | bool flag => exact absurd hmem List.not_mem_nil
        | number text => exact absurd hmem List.not_mem_nil
        | string text => exact absurd hmem List.not_mem_nil
        | array values => exact absurd hmem List.not_mem_nil
    | none =>
        rw [uniqueId_of_no_entities hkind hstep] at hid
        contradiction
  · rintro ⟨key, kind, entities, payload, hentry, hkind, hmem, hkeeps⟩
    refine ⟨.entity kind.forced uniqueId (withCatalog catalogColumns uniqueId payload),
      ⟨(key, .object entities), hentry, ?_⟩, rfl⟩
    unfold sectionSteps
    rw [hkind]
    exact List.mem_map.mpr ⟨(uniqueId, payload), List.mem_filter.mpr ⟨hmem, hkeeps⟩, rfl⟩

theorem mem_keptIds_iff_documented :
    uniqueId ∈ keptIds (fromPatterns allowIds denyIds) catalogColumns sections ↔
      Documented allowIds denyIds sections uniqueId := by
  rw [mem_keptIds]
  constructor
  · rintro ⟨key, kind, entities, payload, hentry, hkind, hmem, hkeeps⟩
    exact ⟨payload, ⟨key, kind, entities, hentry, hkind, hmem⟩,
      (keeps_iff (forced_not_analysis hkind)).mp hkeeps⟩
  · rintro ⟨payload, ⟨key, kind, entities, hentry, hkind, hmem⟩, hkept⟩
    exact ⟨key, kind, entities, payload, hentry, hkind, hmem,
      (keeps_iff (forced_not_analysis hkind)).mpr hkept⟩

theorem documented_congr
    (h : ∀ id payload, EntityOf sections id payload ↔ EntityOf sections' id payload) :
    Documented allowIds denyIds sections uniqueId ↔
      Documented allowIds denyIds sections' uniqueId := by
  unfold Documented
  simp only [h]

end Parse

/-- A parse keeps the documented set of ids. So what an analysis that is included by itself
depends on is kept, where the manifest has it, and a manifest with the same entities in
another order leaves the same ids. -/
theorem parseManifestFile_keeps_documented (allowIds denyIds : List String)
    (catalogColumns : Option CatalogColumns.CatalogColumnMap) (buildStore : Bool)
    (sections : List (String × JsonValue)) (result : ManifestAccumulator)
    (h : parseManifestFile allowIds denyIds catalogColumns (.new buildStore) sections =
      .ok result) :
    (∀ uniqueId, uniqueId ∈ result.seenUniqueIds ↔
        Documented allowIds denyIds sections uniqueId) ∧
      (∀ uniqueId payload dependencies, EntityOf sections uniqueId payload →
        AutoIncluded allowIds denyIds uniqueId payload dependencies →
          ∀ depId depPayload, .string depId ∈ dependencies →
            EntityOf sections depId depPayload → depId ∈ result.seenUniqueIds) ∧
      ∀ sections' result',
        (∀ id payload, EntityOf sections id payload ↔ EntityOf sections' id payload) →
        parseManifestFile allowIds denyIds catalogColumns (.new buildStore) sections' =
          .ok result' →
        result'.seenUniqueIds = result.seenUniqueIds := by
  have hkept : ∀ {sections result}, parseManifestFile allowIds denyIds catalogColumns
      (.new buildStore) sections = .ok result → ∀ uniqueId,
        (uniqueId ∈ result.seenUniqueIds ↔ Documented allowIds denyIds sections uniqueId) := by
    intro sections result h uniqueId
    obtain ⟨hseen, -⟩ := parsed_lineage allowIds denyIds catalogColumns buildStore h
    rw [hseen, mem_keptIds_iff_documented]
  refine ⟨hkept h, ?_, ?_⟩
  · intro uniqueId payload dependencies _ hauto depId depPayload hdep hentity
    obtain ⟨id, hid, hwanted⟩ := hauto.wanted _ hdep
    rw [hkept h]
    exact ⟨depPayload, hentity, Or.inl (JsonValue.string.inj hid ▸ hwanted)⟩
  · intro sections' result' hsame h'
    ext uniqueId
    rw [hkept h', hkept h, documented_congr hsame]

/-- A model, an analysis of it and an analysis that also needs another model. -/
def analysesOfModels : List (String × JsonValue) :=
  [("nodes", .object
    [("analysis.pkg.a_and_b", .object [("resource_type", .string "analysis"),
        ("depends_on", .object [("nodes",
          .array [.string "model.pkg.a", .string "model.pkg.b"])])]),
      ("analysis.pkg.only_a", .object [("resource_type", .string "analysis"),
        ("depends_on", .object [("nodes", .array [.string "model.pkg.a"])])]),
      ("model.pkg.a", .object [("resource_type", .string "model")])])]

theorem parseManifestFile_keeps_analyses :
    ∃ result, parseManifestFile ["model.pkg.a"] [] none (.new false) analysesOfModels =
        .ok result ∧
      ∀ uniqueId, uniqueId ∈ result.seenUniqueIds ↔
        Documented ["model.pkg.a"] [] analysesOfModels uniqueId := by
  have hwell : ∀ entry ∈ analysesOfModels, WellFormed entry := by
    intro entry hentry
    rw [List.mem_singleton.mp hentry]
    exact Or.inr rfl
  have hok := (parseManifestFile_ok ["model.pkg.a"] [] none (.new false) _).mpr ⟨hwell, rfl⟩
  exact ⟨_, hok, (parseManifestFile_keeps_documented _ _ _ _ _ _ hok).1⟩

/-! ## The marks of the patterns -/

structure CompiledPattern where
  raw : String
  compiled : GlobPattern
  matched : Bool

/-- The pruner with the marks that its warnings about unused patterns read. -/
structure MarkedPruner where
  allowPatterns : List CompiledPattern
  denyPatterns : List CompiledPattern

def CompiledPattern.new (pattern : String) : CompiledPattern :=
  ⟨pattern, compileGlob pattern.toList true, false⟩

def newPatterns (patterns : List String) : List CompiledPattern :=
  ((patterns.map Text.trim).filter (· ≠ "")).map CompiledPattern.new

def MarkedPruner.fromPatterns (allowIds denyIds : List String) : Option MarkedPruner :=
  if (newPatterns allowIds).isEmpty && (newPatterns denyIds).isEmpty then none
  else some ⟨newPatterns allowIds, newPatterns denyIds⟩

def MarkedPruner.unmarked (m : MarkedPruner) : ManifestPruner :=
  ⟨m.allowPatterns.map CompiledPattern.compiled, m.denyPatterns.map CompiledPattern.compiled⟩

def matchesMut (patterns : List CompiledPattern) (uniqueId : String) (mark : Bool) :
    Bool × List CompiledPattern :=
  (patterns.any fun pattern => globMatchCompiled pattern.compiled uniqueId.toList,
    patterns.map fun pattern =>
      if mark && globMatchCompiled pattern.compiled uniqueId.toList then
        { pattern with matched := true }
      else pattern)

namespace MarkedPruner

def matchesDeny (m : MarkedPruner) (uniqueId : String) (mark : Bool) : Bool × MarkedPruner :=
  let (denied, denyPatterns) := matchesMut m.denyPatterns uniqueId mark
  (denied, { m with denyPatterns := denyPatterns })

def matchesAllow (m : MarkedPruner) (uniqueId : String) (mark : Bool) : Bool × MarkedPruner :=
  let (allowed, allowPatterns) := matchesMut m.allowPatterns uniqueId mark
  (allowed, { m with allowPatterns := allowPatterns })

def keepAfterAllow (m : MarkedPruner) (uniqueId : String) (mark : Bool) : Bool × MarkedPruner :=
  if m.allowPatterns.isEmpty then (true, m) else m.matchesAllow uniqueId mark

def keepByAllowDeny (m : MarkedPruner) (uniqueId : String) (mark : Bool) :
    Bool × MarkedPruner :=
  let (keep, m) := m.keepAfterAllow uniqueId mark
  if keep then
    let (denied, m) := m.matchesDeny uniqueId mark
    (!denied, m)
  else (false, m)

/-- The dependencies are looked at until one is not kept. -/
def keepAll (m : MarkedPruner) : List JsonValue → Bool × MarkedPruner
  | [] => (true, m)
  | value :: values =>
      match value.asStr with
      | none => (false, m)
      | some id =>
          let (keep, m) := m.keepByAllowDeny id false
          if keep then m.keepAll values else (false, m)

def shouldAutoIncludeAnalysis (m : MarkedPruner) (payload : JsonValue) : Bool × MarkedPruner :=
  match dependsOnNodes payload with
  | none => (false, m)
  | some dependencies => if dependencies.isEmpty then (false, m) else m.keepAll dependencies

def shouldKeepEntity (m : MarkedPruner) (uniqueId : String) (payload : JsonValue)
    (forcedResourceType : Option String) : Bool × MarkedPruner :=
  let (keepBase, m) := m.keepByAllowDeny uniqueId true
  if keepBase then (true, m)
  else
    let (denied, m) := m.matchesDeny uniqueId false
    if denied || !isAnalysis payload forcedResourceType then (false, m)
    else m.shouldAutoIncludeAnalysis payload

end MarkedPruner

section Marks
variable {m : MarkedPruner} {uniqueId : String} {payload : JsonValue} {mark : Bool}

theorem newPatterns_compiled (patterns : List String) :
    (newPatterns patterns).map CompiledPattern.compiled = compilePatterns patterns := by
  unfold newPatterns compilePatterns
  rw [List.map_map]
  rfl

theorem fromPatterns_unmarked (allowIds denyIds : List String) :
    (MarkedPruner.fromPatterns allowIds denyIds).map MarkedPruner.unmarked =
      ManifestPruner.fromPatterns allowIds denyIds := by
  have hempty : ∀ patterns, (newPatterns patterns).isEmpty = (compilePatterns patterns).isEmpty :=
    fun patterns => by rw [← newPatterns_compiled, List.isEmpty_map]
  unfold MarkedPruner.fromPatterns ManifestPruner.fromPatterns
  rw [hempty, hempty]
  dsimp only
  split
  · rfl
  · rw [Option.map_some, MarkedPruner.unmarked, newPatterns_compiled, newPatterns_compiled]

/-- A decision of the pruner with marks: the one without, and the patterns stay. -/
def Decides (m : MarkedPruner) (decision : Bool) (answer : Bool × MarkedPruner) : Prop :=
  answer.1 = decision ∧ answer.2.unmarked = m.unmarked

theorem matchesMut_compiled (patterns : List CompiledPattern) :
    (matchesMut patterns uniqueId mark).2.map CompiledPattern.compiled =
      patterns.map CompiledPattern.compiled := by
  unfold matchesMut
  rw [List.map_map]
  apply List.map_congr_left
  intro pattern _
  rw [Function.comp_apply]
  split <;> rfl

theorem matchesDeny_decides :
    Decides m (m.unmarked.matchesDeny uniqueId) (m.matchesDeny uniqueId mark) := by
  constructor
  · unfold ManifestPruner.matchesDeny MarkedPruner.unmarked
    rw [List.any_map]
    rfl
  · unfold MarkedPruner.matchesDeny MarkedPruner.unmarked
    exact congrArg _ (matchesMut_compiled m.denyPatterns)

theorem matchesAllow_decides :
    Decides m (m.unmarked.matchesAllow uniqueId) (m.matchesAllow uniqueId mark) := by
  constructor
  · unfold ManifestPruner.matchesAllow MarkedPruner.unmarked
    rw [List.any_map]
    rfl
  · unfold MarkedPruner.matchesAllow MarkedPruner.unmarked
    exact congrArg (ManifestPruner.mk · _) (matchesMut_compiled m.allowPatterns)

theorem keepAfterAllow_decides :
    Decides m (m.unmarked.allowPatterns.isEmpty || m.unmarked.matchesAllow uniqueId)
      (m.keepAfterAllow uniqueId mark) := by
  have hempty : m.unmarked.allowPatterns.isEmpty = m.allowPatterns.isEmpty := List.isEmpty_map
  unfold MarkedPruner.keepAfterAllow
  rw [hempty]
  cases m.allowPatterns.isEmpty with
  | true => exact ⟨rfl, rfl⟩
  | false => exact matchesAllow_decides

theorem keepByAllowDeny_decides :
    Decides m (m.unmarked.keepByAllowDeny uniqueId) (m.keepByAllowDeny uniqueId mark) := by
  have hallow : Decides m _ (m.keepAfterAllow uniqueId mark) := keepAfterAllow_decides
  unfold MarkedPruner.keepByAllowDeny ManifestPruner.keepByAllowDeny
  cases hanswer : m.keepAfterAllow uniqueId mark with
  | mk keep m' =>
      rw [hanswer] at hallow
      obtain ⟨hkeep, hsame⟩ := hallow
      rw [← hkeep]
      cases keep with
      | false => exact ⟨rfl, hsame⟩
      | true =>
          have hdeny : Decides m' _ (m'.matchesDeny uniqueId mark) := matchesDeny_decides
          rw [hsame] at hdeny
          exact ⟨congrArg not hdeny.1, hdeny.2.trans hsame⟩

theorem keepAll_decides (values : List JsonValue) :
    Decides m (values.all fun value => value.asStr.any m.unmarked.keepByAllowDeny)
      (m.keepAll values) := by
  induction values generalizing m with
  | nil => exact ⟨rfl, rfl⟩
  | cons value values ih =>
      unfold MarkedPruner.keepAll
      rw [List.all_cons]
      cases value.asStr with
      | none => exact ⟨rfl, rfl⟩
      | some id =>
          have hfirst : Decides m _ (m.keepByAllowDeny id false) := keepByAllowDeny_decides
          dsimp only
          cases hanswer : m.keepByAllowDeny id false with
          | mk keep m' =>
              rw [hanswer] at hfirst
              obtain ⟨hkeep, hsame⟩ := hfirst
              rw [Option.any_some, ← hkeep]
              cases keep with
              | false => exact ⟨rfl, hsame⟩
              | true =>
                  have hrest : Decides m' _ (m'.keepAll values) := ih
                  rw [hsame] at hrest
                  exact ⟨hrest.1, hrest.2.trans hsame⟩

/-- The marks have no say in what is kept. -/
theorem shouldKeepEntity_decides {forced : Option String} :
    Decides m (m.unmarked.shouldKeepEntity uniqueId payload forced)
      (m.shouldKeepEntity uniqueId payload forced) := by
  have hbase : Decides m _ (m.keepByAllowDeny uniqueId true) := keepByAllowDeny_decides
  unfold MarkedPruner.shouldKeepEntity ManifestPruner.shouldKeepEntity
  cases hanswer : m.keepByAllowDeny uniqueId true with
  | mk keep m' =>
      rw [hanswer] at hbase
      obtain ⟨hkeep, hsame⟩ := hbase
      rw [← hkeep]
      cases keep with
      | true => exact ⟨rfl, hsame⟩
      | false =>
          have hdeny : Decides m' _ (m'.matchesDeny uniqueId false) := matchesDeny_decides
          rw [hsame] at hdeny
          dsimp only
          rw [if_neg Bool.false_ne_true]
          cases hdenied : m'.matchesDeny uniqueId false with
          | mk denied m'' =>
              rw [hdenied] at hdeny
              obtain ⟨hsaid, hsame'⟩ : _ ∧ m''.unmarked = m.unmarked :=
                ⟨hdeny.1, hdeny.2.trans hsame⟩
              rw [← hsaid]
              cases hstop : denied || !isAnalysis payload forced with
              | true => exact ⟨rfl, hsame'⟩
              | false =>
                  dsimp only
                  unfold MarkedPruner.shouldAutoIncludeAnalysis
                    ManifestPruner.shouldAutoIncludeAnalysis
                  cases dependsOnNodes payload with
                  | none => exact ⟨rfl, hsame'⟩
                  | some dependencies =>
                      have hall : Decides m'' _ (m''.keepAll dependencies) :=
                        keepAll_decides dependencies
                      rw [hsame'] at hall
                      cases dependencies with
                      | nil => exact ⟨rfl, hsame'⟩
                      | cons first rest => exact ⟨hall.1, hall.2.trans hsame'⟩

/-- The entities of a section that are kept while the marks change. -/
def keptEntities (forced : Option String) :
    MarkedPruner → List (String × JsonValue) → List (String × JsonValue)
  | _, [] => []
  | m, (uniqueId, payload) :: rest =>
      let (keep, m) := m.shouldKeepEntity uniqueId payload forced
      if keep then (uniqueId, payload) :: keptEntities forced m rest
      else keptEntities forced m rest

theorem keptEntities_eq (forced : Option String) (entities : List (String × JsonValue)) :
    keptEntities forced m entities = entities.filter fun entry =>
      keeps (some m.unmarked) forced entry.1 entry.2 := by
  induction entities generalizing m with
  | nil => rfl
  | cons entry entities ih =>
      obtain ⟨uniqueId, payload⟩ := entry
      have hfirst : Decides m _ (m.shouldKeepEntity uniqueId payload forced) :=
        shouldKeepEntity_decides
      unfold keptEntities
      rw [List.filter_cons]
      cases hanswer : m.shouldKeepEntity uniqueId payload forced with
      | mk keep m' =>
          rw [hanswer] at hfirst
          obtain ⟨hkeep, hsame⟩ := hfirst
          have hdecision : keeps (some m.unmarked) forced uniqueId payload = keep := hkeep.symm
          have hrest : keptEntities forced m' entities = entities.filter fun entry =>
              keeps (some m'.unmarked) forced entry.1 entry.2 := ih
          have hsame' : m'.unmarked = m.unmarked := hsame
          dsimp only
          rw [hdecision, hrest, hsame']

end Marks

end DbtNova.ManifestPruning
