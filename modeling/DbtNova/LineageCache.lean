import DbtNova.Json
import DbtNova.Lineage

/-!
# The cache of lineage answers

`get_lineage` keeps its answers under a text made of the request, `lineage_cache_key` of
`tools/lineage.rs`. An answer renders the ids of the traversal at a detail level.
-/
namespace DbtNova.LineageCache
open Text Lineage

inductive DetailLevel
  | compact
  | standard
  | full

/-- A request whose root has been resolved. -/
structure LineageRequest where
  rootId : String
  params : GetLineageParams
  detail : Option DetailLevel

structure LineageSettings where
  lineage : LineageConfig
  /-- The detail of the active result profile. -/
  profile : DetailLevel

/-- What `get_lineage` reads of a manifest. An entity may be missing or unreadable. -/
structure LineageSearch where
  index : LineageIndex
  fullEntity : String → Result (Option JsonValue)
  compactEntity : String → Result (Option JsonValue)
  entitySummary : String → Result (Option JsonValue)
  dependencyHints : String → JsonValue × ℕ

structure LineageAnswer where
  rootId : String
  direction : String
  depth : ℕ
  depthReached : ℕ
  entities : List JsonValue
  edges : List (String × String)
  lineageStatus : String
  lineageHints : JsonValue
  count : ℕ
  truncated : Bool

def detailLevel (settings : LineageSettings) (requested : Option DetailLevel) : DetailLevel :=
  requested.getD settings.profile

def DetailLevel.name : DetailLevel → String
  | .compact => "compact"
  | .standard => "standard"
  | .full => "full"

def lineageCacheKey (uniqueId : String) (params : GetLineageParams) (detail : DetailLevel)
    (depth maxResults : ℕ) : String :=
  uniqueId ++ "|" ++ params.direction ++ "|" ++ depth.repr ++ "|" ++ maxResults.repr ++ "|" ++
    detail.name ++ "|" ++ ",".intercalate (params.resourceTypes.insertionSort (· ≤ ·))

def renderEntity (search : LineageSearch) (detail : DetailLevel) (id : String) :
    Result (List JsonValue) :=
  match detail with
  | .full => (search.fullEntity id).map fun entity => [entity.getD .null]
  | .compact => (search.compactEntity id).map Option.toList
  | .standard => (search.entitySummary id).map fun summary =>
      [summary.getD
        (.object [("unique_id", .string id), ("name", .null), ("resource_type", .null)])]

/-- The part of `get_lineage` behind the traversal. -/
def lineageAnswer (search : LineageSearch) (rootId direction : String) (maxDepth : ℕ)
    (detail : DetailLevel) (t : Traversal) : Result LineageAnswer := do
  let rendered ← t.result.mapM (renderEntity search detail)
  let results := rendered.flatten
  let (lineageHints, hintsTotal) := search.dependencyHints rootId
  let lineageStatus :=
    if results.isEmpty && t.edges.isEmpty then
      if hintsTotal = 0 then "no_dependencies_recorded"
      else "dependencies_unresolved_or_filtered"
    else "ok"
  return {
    rootId := rootId
    direction := direction
    depth := maxDepth
    depthReached := t.depthReached
    entities := results
    edges := t.edges
    lineageStatus := lineageStatus
    lineageHints := lineageHints
    count := results.length
    truncated := t.truncated }

/-- The depth that the request is allowed. -/
def maxDepthOf (settings : LineageSettings) (r : LineageRequest) : ℕ :=
  min (r.params.depth.getD settings.lineage.lineageMaxDepth) settings.lineage.lineageMaxDepth

/-- The key under which the answer of a request is kept. -/
def keyOf (settings : LineageSettings) (r : LineageRequest) : String :=
  lineageCacheKey r.rootId r.params (detailLevel settings r.detail) (maxDepthOf settings r)
    (max settings.lineage.lineageMaxResults 1)

/-- The answer that is computed when the cache has none; `none` where the fuel runs out. -/
def uncached (fuel : ℕ) (settings : LineageSettings) (search : LineageSearch)
    (r : LineageRequest) : Option (Result LineageAnswer) :=
  match getLineage fuel search.index settings.lineage r.rootId r.params with
  | .error e => some (.error e)
  | .ok none => none
  | .ok (some t) =>
      some (lineageAnswer search r.rootId r.params.direction (maxDepthOf settings r)
        (detailLevel settings r.detail) t)

/-- The checks in front of the cache. -/
def Accepted (settings : LineageSettings) (r : LineageRequest) : Prop :=
  (r.params.direction = "upstream" ∨ r.params.direction = "downstream") ∧
    0 < maxDepthOf settings r

/-- `get_lineage` with the cache. Which entries are still kept when a request comes is up
to the cache. -/
def getLineageCached (fuel : ℕ) (settings : LineageSettings) (search : LineageSearch)
    (cache : List (String × LineageAnswer)) (kept : String → Bool) (r : LineageRequest) :
    Option (Result LineageAnswer × List (String × LineageAnswer)) :=
  match requestOf search.index settings.lineage r.params with
  | .error e => some (.error e, cache)
  | .ok _ =>
      let cache := cache.filter fun entry => kept entry.1
      match cache.lookup (keyOf settings r) with
      | some answer => some (.ok answer, cache)
      | none =>
          match uncached fuel settings search r with
          | none => none
          | some (.error e) => some (.error e, cache)
          | some (.ok answer) => some (.ok answer, (keyOf settings r, answer) :: cache)

/-! ## What a request asks for -/

section Requests
variable {settings : LineageSettings} {search : LineageSearch} {r r' : LineageRequest}

def lowered (name : String) : List Char := name.toList.map Char.toLower

/-- The lists name the same types. -/
def SameTypes (types types' : List String) : Prop :=
  ∀ name, name ∈ types.map lowered ↔ name ∈ types'.map lowered

theorem lineageTypeAllowed_iff {resourceType : Option String} {types : List String} :
    lineageTypeAllowed resourceType types = true ↔
      types = [] ∨ ∃ name, resourceType = some name ∧ lowered name ∈ types.map lowered := by
  unfold lineageTypeAllowed
  cases types with
  | nil => simp
  | cons first rest =>
      rw [List.isEmpty_cons, if_neg Bool.false_ne_true]
      cases resourceType with
      | none => simp
      | some name =>
          dsimp only
          rw [List.any_eq_true]
          simp only [reduceCtorEq, Option.some.injEq, exists_eq_left', false_or, List.mem_map,
            eqIgnoreAsciiCase, beq_iff_eq, lowered]

theorem sameTypes_iff {types types' : List String} :
    SameTypes types types' ↔
      ∀ resourceType, lineageTypeAllowed resourceType types =
        lineageTypeAllowed resourceType types' := by
  constructor
  · intro h resourceType
    have hempty : types = [] ↔ types' = [] := by
      rw [← List.map_eq_nil_iff (f := lowered), ← List.map_eq_nil_iff (f := lowered)]
      rw [List.eq_nil_iff_forall_not_mem, List.eq_nil_iff_forall_not_mem]
      exact forall_congr' fun name => not_congr (h name)
    rw [Bool.eq_iff_iff, lineageTypeAllowed_iff, lineageTypeAllowed_iff, hempty]
    simp only [h _]
  · intro h
    have hhalf : ∀ {types types' : List String}, (∀ resourceType,
        lineageTypeAllowed resourceType types = lineageTypeAllowed resourceType types') →
        ∀ name, name ∈ types.map lowered → name ∈ types'.map lowered := by
      intro types types' h name hname
      obtain ⟨candidate, hcandidate, hlowered⟩ := List.mem_map.mp hname
      have hallowed : lineageTypeAllowed (some candidate) types = true :=
        lineageTypeAllowed_iff.mpr
          (Or.inr ⟨candidate, rfl, List.mem_map_of_mem hcandidate⟩)
      rw [h] at hallowed
      cases lineageTypeAllowed_iff.mp hallowed with
      | inl hempty =>
          have hnone : lineageTypeAllowed none types' = true :=
            lineageTypeAllowed_iff.mpr (Or.inl hempty)
          rw [← h] at hnone
          cases lineageTypeAllowed_iff.mp hnone with
          | inl hnil =>
              rw [hnil] at hcandidate
              exact absurd hcandidate List.not_mem_nil
          | inr hsome =>
              obtain ⟨_, hsome, -⟩ := hsome
              contradiction
      | inr hsome =>
          obtain ⟨other, hother, hmem⟩ := hsome
          rw [← Option.some.inj hother, hlowered] at hmem
          exact hmem
    exact fun name => ⟨hhalf h name, hhalf (fun ty => (h ty).symm) name⟩

/-- What an accepted request traverses. -/
def acceptedRequest (settings : LineageSettings) (index : LineageIndex) (r : LineageRequest) :
    Request where
  map := if r.params.direction = "upstream" then index.parentMap else index.childMap
  upstream := decide (r.params.direction = "upstream")
  allowed := fun id =>
    lineageTypeAllowed (index.resourceTypeById.lookup id) r.params.resourceTypes
  maxDepth := maxDepthOf settings r
  maxResults := max settings.lineage.lineageMaxResults 1

theorem requestOf_accepted (h : Accepted settings r) (index : LineageIndex) :
    requestOf index settings.lineage r.params = .ok (acceptedRequest settings index r) := by
  obtain ⟨hdirection, hdepth⟩ := h
  unfold maxDepthOf at hdepth
  unfold requestOf lineageMap acceptedRequest maxDepthOf
  cases hdirection with
  | inl hup =>
      simp only [hup, if_pos]
      exact if_neg (Nat.pos_iff_ne_zero.mp hdepth)
  | inr hdown =>
      have hne : ¬ ("downstream" = "upstream") := by decide
      simp only [hdown, if_pos, hne, decide_false]
      exact if_neg (Nat.pos_iff_ne_zero.mp hdepth)

theorem repr_injective {m n : ℕ} (h : m.repr = n.repr) : m = n :=
  JsonValue.ofNat_inj.mp (congrArg JsonValue.number h)

theorem bar_not_mem_repr (n : ℕ) : '|' ∉ n.repr.toList := by
  rw [Nat.toList_repr]
  intro hbar
  have hdigit := Nat.isDigit_of_mem_toDigits (by omega) (by omega) hbar
  contradiction

theorem bar_not_mem_name (detail : DetailLevel) : '|' ∉ detail.name.toList := by
  cases detail <;> decide

theorem name_injective {detail detail' : DetailLevel} (h : detail.name = detail'.name) :
    detail = detail' := by
  cases detail <;> cases detail' <;> first | rfl | exact absurd h (by decide)

theorem bar_not_mem_direction (h : Accepted settings r) : '|' ∉ r.params.direction.toList := by
  cases h.1 with
  | inl hup => rw [hup]; decide
  | inr hdown => rw [hdown]; decide

/-- The texts in front of the first bar are equal, and so are those behind it. -/
theorem cut_at_bar {xs xs' ys ys' : List Char} (h : '|' ∉ xs) (h' : '|' ∉ xs')
    (heq : xs ++ '|' :: ys = xs' ++ '|' :: ys') : xs = xs' ∧ ys = ys' := by
  induction xs generalizing xs' with
  | nil =>
      cases xs' with
      | nil => exact ⟨rfl, (List.cons.inj heq).2⟩
      | cons x' xs' =>
          rw [(List.cons.inj heq).1] at h'
          exact absurd List.mem_cons_self h'
  | cons x xs ih =>
      cases xs' with
      | nil =>
          rw [← (List.cons.inj heq).1] at h
          exact absurd List.mem_cons_self h
      | cons x' xs' =>
          obtain ⟨hx, hrest⟩ := List.cons.inj heq
          obtain ⟨hxs, hys⟩ := ih (fun hin => h (List.mem_cons_of_mem x hin))
            (fun hin => h' (List.mem_cons_of_mem x' hin)) hrest
          exact ⟨by rw [hx, hxs], hys⟩

/-- Behind a common root the parts of a key can be told apart. -/
theorem keyOf_parts (h : Accepted settings r) (h' : Accepted settings r')
    (hroot : r.rootId = r'.rootId) (hkey : keyOf settings r = keyOf settings r') :
    r.params.direction = r'.params.direction ∧ maxDepthOf settings r = maxDepthOf settings r' ∧
      detailLevel settings r.detail = detailLevel settings r'.detail := by
  have hchars := congrArg String.toList hkey
  have hbar : "|".toList = ['|'] := rfl
  unfold keyOf lineageCacheKey at hchars
  simp only [String.toList_append, List.append_assoc, hroot, hbar, List.cons_append,
    List.nil_append] at hchars
  have hrest := List.append_cancel_left hchars
  rw [List.cons_inj_right] at hrest
  obtain ⟨hdirection, hrest⟩ :=
    cut_at_bar (bar_not_mem_direction h) (bar_not_mem_direction h') hrest
  obtain ⟨hdepth, hrest⟩ := cut_at_bar (bar_not_mem_repr _) (bar_not_mem_repr _) hrest
  obtain ⟨-, hrest⟩ := cut_at_bar (bar_not_mem_repr _) (bar_not_mem_repr _) hrest
  obtain ⟨hdetail, -⟩ := cut_at_bar (bar_not_mem_name _) (bar_not_mem_name _) hrest
  exact ⟨String.toList_injective hdirection, repr_injective (String.toList_injective hdepth),
    name_injective (String.toList_injective hdetail)⟩

end Requests

/-! ## Answers under one key -/

section Answers
variable {settings : LineageSettings} {search : LineageSearch} {r r' : LineageRequest}

/-- The entities, the edges, the depth and the truncation of an answer. -/
def LineageAnswer.shown (answer : LineageAnswer) :
    List JsonValue × List (String × String) × ℕ × ℕ × Bool :=
  (answer.entities, answer.edges, answer.depth, answer.depthReached, answer.truncated)

/-- Against every manifest the two requests have one answer. -/
def Transparent (settings : LineageSettings) (r r' : LineageRequest) : Prop :=
  ∀ (search : LineageSearch) (fuel : ℕ) (answer answer' : Result LineageAnswer),
    uncached fuel settings search r = some answer →
      uncached fuel settings search r' = some answer' →
        answer.map LineageAnswer.shown = answer'.map LineageAnswer.shown

/-- The same root and the same types, however they are written. -/
structure SameRequest (r r' : LineageRequest) : Prop where
  rootId : r.rootId = r'.rootId
  types : SameTypes r.params.resourceTypes r'.params.resourceTypes

theorem uncached_eq (h : Accepted settings r) (h' : Accepted settings r')
    (hkey : keyOf settings r = keyOf settings r') (hsame : SameRequest r r') (fuel : ℕ)
    (search : LineageSearch) :
    uncached fuel settings search r = uncached fuel settings search r' := by
  obtain ⟨hdirection, hdepth, hdetail⟩ := keyOf_parts h h' hsame.rootId hkey
  have hallowed := sameTypes_iff.mp hsame.types
  have hrequest : acceptedRequest settings search.index r =
      acceptedRequest settings search.index r' := by
    unfold acceptedRequest
    simp only [hdirection, hdepth, hallowed]
  unfold uncached getLineage
  rw [requestOf_accepted h, requestOf_accepted h', hrequest, hsame.rootId, hdirection, hdepth,
    hdetail]

/-- A manifest where all that a request can find is one child of one entity. -/
def oneChild (root child : String) (resourceType : Option String) : LineageSearch where
  index :=
    { parentMap := [(root, [child])]
      childMap := [(root, [child])]
      resourceTypeById := (resourceType.map fun resourceType => (child, resourceType)).toList }
  fullEntity := fun id => .ok (some (.string id))
  compactEntity := fun id => .ok (some (.string id))
  entitySummary := fun id => .ok (some (.string id))
  dependencyHints := fun _ => (.null, 0)

theorem renderEntity_oneChild (root child : String) (resourceType : Option String)
    (detail : DetailLevel) (id : String) :
    renderEntity (oneChild root child resourceType) detail id = .ok [.string id] := by
  cases detail <;> rfl

theorem entities_oneChild {root child : String} {resourceType : Option String} {rootId direction}
    {maxDepth : ℕ} {detail : DetailLevel} {t : Traversal} :
    ∃ answer, lineageAnswer (oneChild root child resourceType) rootId direction maxDepth detail t =
      .ok answer ∧ answer.entities = t.result.map .string := by
  have hrendered : t.result.mapM (renderEntity (oneChild root child resourceType) detail) =
      .ok (t.result.map fun id => [.string id]) := by
    induction t.result with
    | nil => rfl
    | cons id ids ih =>
        rw [List.mapM_cons, renderEntity_oneChild, ih]
        rfl
  unfold lineageAnswer
  rw [hrendered]
  refine ⟨_, rfl, ?_⟩
  change (t.result.map fun id => [JsonValue.string id]).flatten = _
  rw [← List.flatMap_def, List.map_eq_flatMap]

theorem result_nonempty_iff {request : Request} {rootId : String} {t : Traversal}
    (hmax : 1 ≤ request.maxResults) (hgood : Good request rootId t)
    (hexact : t.truncated = false → ∀ v, v ∈ t.result ↔ v ∈ Reached request rootId) :
    t.result ≠ [] ↔ (Reached request rootId).Nonempty := by
  constructor
  · intro hsome
    obtain ⟨v, hv⟩ := List.exists_mem_of_ne_nil _ hsome
    exact ⟨v, hgood.reached hv⟩
  · intro ⟨v, hv⟩ hnone
    cases htruncated : t.truncated with
    | true =>
        have hlength := hgood.full.mp htruncated
        rw [hnone, List.length_nil] at hlength
        omega
    | false =>
        have hin := (hexact htruncated v).mpr hv
        rw [hnone] at hin
        exact List.not_mem_nil hin

theorem lookup_oneChild {root child u : String} {ids : List String}
    (h : [(root, [child])].lookup u = some ids) : u = root ∧ ids = [child] := by
  rw [List.lookup_cons] at h
  by_cases hu : u = root
  · rw [hu, beq_self_eq_true] at h
    exact ⟨hu, (Option.some.inj h).symm⟩
  · rw [beq_eq_false_iff_ne.mpr hu] at h
    contradiction

/-- One child is reached from its parent alone, if its type is wanted. -/
theorem reached_oneChild {request : Request} {rootId root child : String}
    (hmap : request.map = [(root, [child])]) (hchild : child ≠ root)
    (hdepth : 1 ≤ request.maxDepth) :
    (Reached request rootId).Nonempty ↔ rootId = root ∧ request.allowed child = true := by
  constructor
  · rintro ⟨v, hroot, hallowed, path, hpath, -⟩
    cases hpath with
    | nil => exact absurd rfl hroot
    | snoc hu hlookup hv =>
        obtain ⟨rfl, rfl⟩ := lookup_oneChild (hmap ▸ hlookup)
        rw [List.mem_singleton.mp hv] at hallowed
        refine ⟨?_, hallowed⟩
        cases hu with
        | nil => rfl
        | snoc _ hlookup' hmem =>
            obtain ⟨-, rfl⟩ := lookup_oneChild (hmap ▸ hlookup')
            exact absurd (List.mem_singleton.mp hmem).symm hchild
  · rintro ⟨rfl, hallowed⟩
    have hlookup : request.map.lookup rootId = some [child] := by
      rw [hmap, List.lookup_cons, beq_self_eq_true]
    have hpath : Path request.map rootId ([] ++ [child]) child :=
      Path.snoc Path.nil hlookup (List.mem_singleton_self child)
    refine ⟨child, hchild, hallowed, _, hpath, ?_⟩
    apply le_trans _ hdepth
    exact List.countP_le_length

/-- What a request finds of one child is the child, or nothing. -/
theorem uncached_oneChild (h : Accepted settings r) {root child : String}
    (hchild : child ≠ root) (resourceType : Option String) :
    ∃ fuel answer, (∀ fuel' ≥ fuel,
        uncached fuel' settings (oneChild root child resourceType) r = some (.ok answer)) ∧
      (answer.entities ≠ [] ↔ r.rootId = root ∧
        lineageTypeAllowed resourceType r.params.resourceTypes = true) := by
  have hrequest := requestOf_accepted h (oneChild root child resourceType).index
  have hmap : (acceptedRequest settings (oneChild root child resourceType).index r).map =
      [(root, [child])] := ite_self _
  have htype : (oneChild root child resourceType).index.resourceTypeById.lookup child =
      resourceType := by
    cases resourceType with
    | none => rfl
    | some resourceType =>
        change [(child, resourceType)].lookup child = _
        rw [List.lookup_cons, beq_self_eq_true]
  have hmax := requestOf_max hrequest
  obtain ⟨fuel, t, hrun, hgood, hexact⟩ := traverse_spec _ r.rootId hmax
  obtain ⟨answer, hanswer, hentities⟩ : ∃ answer, lineageAnswer _ r.rootId _ _ _ t =
    .ok answer ∧ _ := entities_oneChild
  refine ⟨fuel, answer, ?_, ?_⟩
  · intro fuel' hle
    unfold uncached
    rw [getLineage_eq hrequest (hrun fuel' hle) hgood]
    exact congrArg some hanswer
  · rw [hentities, ne_eq, List.map_eq_nil_iff, ← ne_eq, result_nonempty_iff hmax hgood hexact,
      reached_oneChild hmap hchild h.2]
    unfold acceptedRequest
    dsimp only
    rw [htype]

theorem transparent_same (h : Accepted settings r) (h' : Accepted settings r')
    (htransparent : Transparent settings r r') (root : String) (resourceType : Option String) :
    (r.rootId = root ∧ lineageTypeAllowed resourceType r.params.resourceTypes = true) ↔
      (r'.rootId = root ∧ lineageTypeAllowed resourceType r'.params.resourceTypes = true) := by
  have hchild : root ++ "." ≠ root := by
    intro heq
    have hlength := congrArg String.length heq
    rw [String.length_append] at hlength
    exact absurd hlength (by simp)
  obtain ⟨fuel, answer, hrun, hfound⟩ := uncached_oneChild h hchild resourceType
  obtain ⟨fuel', answer', hrun', hfound'⟩ := uncached_oneChild h' hchild resourceType
  have hshown := htransparent _ _ _ _ (hrun (max fuel fuel') (le_max_left _ _))
    (hrun' (max fuel fuel') (le_max_right _ _))
  have hentities : answer.entities = answer'.entities :=
    congrArg Prod.fst (Except.ok.inj hshown)
  rw [← hfound, ← hfound', hentities]

/-- Two accepted requests with one key have one answer against every manifest exactly when
they ask for the same root and the same types. -/
theorem lineageCacheKey_transparent_iff (settings : LineageSettings) (r r' : LineageRequest)
    (h : Accepted settings r) (h' : Accepted settings r')
    (hkey : keyOf settings r = keyOf settings r') :
    Transparent settings r r' ↔ SameRequest r r' := by
  constructor
  · intro htransparent
    have hiff := transparent_same h h' htransparent
    obtain ⟨wanted, hwanted⟩ :
        ∃ wanted, lineageTypeAllowed wanted r.params.resourceTypes = true := by
      cases htypes : r.params.resourceTypes with
      | nil => exact ⟨none, rfl⟩
      | cons first rest =>
          exact ⟨some first, lineageTypeAllowed_iff.mpr (Or.inr ⟨first, rfl, List.mem_cons_self⟩)⟩
    have hroot : r'.rootId = r.rootId := ((hiff r.rootId wanted).mp ⟨rfl, hwanted⟩).1
    refine ⟨hroot.symm, sameTypes_iff.mpr fun resourceType => ?_⟩
    rw [Bool.eq_iff_iff]
    have hboth := hiff r.rootId resourceType
    rw [hroot] at hboth
    simpa using hboth
  · intro hsame search fuel answer answer' hrun hrun'
    rw [uncached_eq h h' hkey hsame] at hrun
    rw [Option.some.inj (hrun.symm.trans hrun')]

def usualSettings : LineageSettings := ⟨⟨200, 10000⟩, .standard⟩

def typesAbove (types : List String) : LineageRequest where
  rootId := "model.a"
  params := ⟨"upstream", none, types⟩
  detail := none

theorem lineageCacheKey_transparent_sorted :
    Transparent usualSettings (typesAbove ["seed", "model"]) (typesAbove ["model", "seed"]) ↔
      SameRequest (typesAbove ["seed", "model"]) (typesAbove ["model", "seed"]) :=
  lineageCacheKey_transparent_iff usualSettings _ _ ⟨Or.inl rfl, by decide⟩
    ⟨Or.inl rfl, by decide⟩ (by decide)

/-- One type whose name has a comma, and the two types of that text. -/
theorem lineageCacheKey_confused :
    Accepted usualSettings (typesAbove ["model,seed"]) ∧
      Accepted usualSettings (typesAbove ["model", "seed"]) ∧
      keyOf usualSettings (typesAbove ["model,seed"]) =
        keyOf usualSettings (typesAbove ["model", "seed"]) ∧
      ¬ Transparent usualSettings (typesAbove ["model,seed"])
        (typesAbove ["model", "seed"]) := by
  refine ⟨⟨Or.inl rfl, by decide⟩, ⟨Or.inl rfl, by decide⟩, by decide, ?_⟩
  intro htransparent
  have hiff := transparent_same ⟨Or.inl rfl, by decide⟩ ⟨Or.inl rfl, by decide⟩ htransparent
    "model.a" (some "model")
  exact absurd (hiff.mpr ⟨rfl, by decide⟩) (by decide)

end Answers

/-! ## Runs with the cache -/

section Runs
variable {fuel : ℕ} {settings : LineageSettings} {search : LineageSearch}

/-- The answers to requests one after the other. -/
def serve (fuel : ℕ) (settings : LineageSettings) (search : LineageSearch) :
    List (String × LineageAnswer) → List ((String → Bool) × LineageRequest) →
      Option (List (Result LineageAnswer))
  | _, [] => some []
  | cache, (kept, r) :: rest => do
      let (answer, cache) ← getLineageCached fuel settings search cache kept r
      let answers ← serve fuel settings search cache rest
      return answer :: answers

/-- Each entry is the answer to one of the requests. -/
def Recorded (fuel : ℕ) (settings : LineageSettings) (search : LineageSearch)
    (requests : List LineageRequest) (cache : List (String × LineageAnswer)) : Prop :=
  ∀ entry ∈ cache, ∃ r ∈ requests, Accepted settings r ∧ keyOf settings r = entry.1 ∧
    uncached fuel settings search r = some (.ok entry.2)

/-- Requests of one key ask for the same. -/
def Unconfused (settings : LineageSettings) (requests : List LineageRequest) : Prop :=
  ∀ r ∈ requests, ∀ r' ∈ requests, Accepted settings r → Accepted settings r' →
    keyOf settings r = keyOf settings r' → SameRequest r r'

theorem accepted_of_requestOf {r : LineageRequest} {request : Request} {index : LineageIndex}
    (h : requestOf index settings.lineage r.params = .ok request) : Accepted settings r := by
  unfold requestOf at h
  obtain ⟨⟨map, upstream⟩, hmap, h⟩ := bind_eq_ok.mp h
  dsimp only at h
  unfold lineageMap at hmap
  split at h
  · contradiction
  · rename_i hdepth
    refine ⟨?_, Nat.pos_of_ne_zero hdepth⟩
    by_cases hup : r.params.direction = "upstream"
    · exact Or.inl hup
    · rw [if_neg hup] at hmap
      by_cases hdown : r.params.direction = "downstream"
      · exact Or.inr hdown
      · rw [if_neg hdown] at hmap
        contradiction

theorem uncached_error {r : LineageRequest} {e : DbtNovaError}
    (h : requestOf search.index settings.lineage r.params = .error e) :
    uncached fuel settings search r = some (.error e) := by
  unfold uncached getLineage
  rw [h]
  rfl

/-- What one request with the cache does. -/
theorem getLineageCached_spec {requests : List LineageRequest} {r : LineageRequest}
    {cache cache' : List (String × LineageAnswer)} {kept : String → Bool}
    {answer : Result LineageAnswer} (hun : Unconfused settings requests) (hr : r ∈ requests)
    (hcache : Recorded fuel settings search requests cache)
    (hrun : getLineageCached fuel settings search cache kept r = some (answer, cache')) :
    uncached fuel settings search r = some answer ∧
      Recorded fuel settings search requests cache' := by
  unfold getLineageCached at hrun
  cases hrequest : requestOf search.index settings.lineage r.params with
  | error e =>
      rw [hrequest] at hrun
      cases hrun
      exact ⟨uncached_error hrequest, hcache⟩
  | ok request =>
      rw [hrequest] at hrun
      have haccepted := accepted_of_requestOf hrequest
      have hkept : Recorded fuel settings search requests
          (cache.filter fun entry => kept entry.1) :=
        fun entry hentry => hcache entry (List.mem_filter.mp hentry).1
      dsimp only at hrun
      cases hlookup : (cache.filter fun entry => kept entry.1).lookup (keyOf settings r) with
      | some cached =>
          rw [hlookup] at hrun
          cases hrun
          obtain ⟨before, after, hentries, -⟩ := List.lookup_eq_some_iff.mp hlookup
          obtain ⟨r', hr', haccepted', hkey, huncached⟩ := hkept (keyOf settings r, cached)
            (hentries ▸ List.mem_append_right _ List.mem_cons_self)
          have hsame := hun r hr r' hr' haccepted haccepted' hkey.symm
          exact ⟨(uncached_eq haccepted haccepted' hkey.symm hsame fuel search).trans huncached,
            hkept⟩
      | none =>
          rw [hlookup] at hrun
          cases huncached : uncached fuel settings search r with
          | none =>
              rw [huncached] at hrun
              contradiction
          | some result =>
              rw [huncached] at hrun
              cases result with
              | error e =>
                  cases hrun
                  exact ⟨rfl, hkept⟩
              | ok computed =>
                  cases hrun
                  refine ⟨rfl, ?_⟩
                  intro entry hentry
                  cases List.mem_cons.mp hentry with
                  | inl hnew =>
                      rw [hnew]
                      exact ⟨r, hr, haccepted, rfl, huncached⟩
                  | inr hold => exact hkept entry hold

/-- As long as requests of one key ask for the same, the cache changes no answer. -/
theorem serve_uncached {requests : List LineageRequest} (hun : Unconfused settings requests)
    (cache : List (String × LineageAnswer)) (steps : List ((String → Bool) × LineageRequest))
    (hsteps : ∀ step ∈ steps, step.2 ∈ requests)
    (hcache : Recorded fuel settings search requests cache)
    (answers : List (Result LineageAnswer))
    (hrun : serve fuel settings search cache steps = some answers) :
    List.Forall₂ (fun step answer => uncached fuel settings search step.2 = some answer)
      steps answers := by
  induction steps generalizing cache answers with
  | nil =>
      cases hrun
      exact List.Forall₂.nil
  | cons step steps ih =>
      obtain ⟨kept, r⟩ := step
      unfold serve at hrun
      obtain ⟨⟨answer, cache'⟩, hfirst, hrest⟩ := Option.bind_eq_some_iff.mp hrun
      obtain ⟨others, hothers, hanswers⟩ := Option.bind_eq_some_iff.mp hrest
      cases hanswers
      obtain ⟨hanswer, hcache'⟩ :=
        getLineageCached_spec hun (hsteps _ List.mem_cons_self) hcache hfirst
      refine List.Forall₂.cons hanswer (ih cache' ?_ hcache' others hothers)
      exact fun other hother => hsteps other (List.mem_cons_of_mem _ hother)

/-- From an empty cache every answer is the one that is computed without it. -/
theorem serve_exact (steps : List ((String → Bool) × LineageRequest))
    (hun : Unconfused settings (steps.map Prod.snd)) (answers : List (Result LineageAnswer))
    (hrun : serve fuel settings search [] steps = some answers) :
    List.Forall₂ (fun step answer => uncached fuel settings search step.2 = some answer)
      steps answers :=
  serve_uncached hun [] steps (fun _ hstep => List.mem_map_of_mem hstep)
    (fun _ hentry => absurd hentry List.not_mem_nil) answers hrun

end Runs

end DbtNova.LineageCache
