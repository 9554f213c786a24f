import DbtNova.ColumnLineage
import DbtNova.Error
import Mathlib.Algebra.Field.Rat
import Mathlib.Algebra.Order.Ring.Rat

/-!
# The rows of column lineage

A row comes from a step of the search, and all rows of the steps before it are reported too.
The traversal hands the empty path and the requested column on, so that the path of a row is
right next to the start entity only, and its source column where the column kept its name.
-/
namespace DbtNova.ColumnLineage
open ColumnMatching BreadthFirst

section Edges
variable {K : Type*} {search : ManifestSearch K} {request : Request}

/-- An edge of the traversed map. -/
def Edge (request : Request) (u v : String) : Prop :=
  ∃ ids, request.map.lookup u = some ids ∧ v ∈ ids

theorem mem_related {u v : String} :
    v ∈ related request u ↔ Edge request u v := by
  unfold related Edge
  rw [List.mem_insertionSort]
  cases hlookup : request.map.lookup u with
  | none => simp
  | some ids => simp

theorem mem_storedRelated {u v : String} :
    v ∈ storedRelated search request u ↔
      Edge request u v ∧ (search.getEntity u).isSome ∧ (search.getEntity v).isSome := by
  unfold storedRelated
  split
  · rename_i hu
    rw [List.mem_filter, mem_related, and_iff_right hu]
  · rename_i hu
    exact iff_of_false List.not_mem_nil (fun h => hu h.2.1)

theorem storedRelated_nodes (search : ManifestSearch K) (request : Request) (u v : String)
    (hv : v ∈ storedRelated search request u) : v ∈ request.map.flatMap Prod.snd := by
  obtain ⟨ids, hlookup, hmem⟩ := (mem_storedRelated.mp hv).1
  obtain ⟨l₁, l₂, hmap, -⟩ := List.lookup_eq_some_iff.mp hlookup
  rw [List.mem_flatMap]
  refine ⟨(u, ids), ?_, hmem⟩
  rw [hmap]
  exact List.mem_append_right _ List.mem_cons_self

theorem searchTree_spec (search : ManifestSearch K) (request : Request) :
    Spec (storedRelated search request) request.maxDepth request.startId
      (searchTree search request) :=
  steps_spec request.maxDepth (storedRelated_nodes search request) request.startId

/-- What the request says about the limits and the start entity. -/
theorem requestOf_ok {params : GetColumnLineageParams}
    (h : requestOf search params = .ok request) :
    (search.getEntity request.startId).isSome ∧ 0 < request.maxResults ∧
      0 < request.maxCandidates := by
  unfold requestOf at h
  obtain ⟨_, hstart, h⟩ := bind_eq_ok.mp h
  obtain ⟨⟨map, downstream⟩, -, h⟩ := bind_eq_ok.mp h
  dsimp only at h
  split at h
  · contradiction
  · cases h
    refine ⟨?_, Nat.lt_of_lt_of_le Nat.one_pos (le_max_right _ _),
      Nat.lt_of_lt_of_le Nat.one_pos (le_max_right _ _)⟩
    unfold checkStart at hstart
    split at hstart
    · contradiction
    · rename_i startEntity hentity
      rw [hentity]
      rfl

end Edges

section Rows
variable {K : Type*} [Field K] [LinearOrder K] {search : ManifestSearch K} {request : Request}
  {order : HashOrder search request}

theorem report_room (hmax : 0 < request.maxResults) (steps : List (Step String))
    (h : (report search request order steps).truncated = false) :
    (report search request order steps).results.length < request.maxResults := by
  induction steps using List.reverseRecOn with
  | nil => exact hmax
  | append_singleton steps e ih =>
      rw [report_snoc] at h ⊢
      unfold reportStep at h ⊢
      split
      · rename_i hstop
        rw [if_pos hstop] at h
        exact ih h
      · rename_i hgo
        rw [if_neg hgo] at h
        obtain ⟨hfull, -⟩ := Bool.or_eq_false_iff.mp h
        have hlt := of_decide_eq_false hfull
        dsimp only
        rw [List.length_take]
        omega

/-- Before a limit all rows are there. -/
theorem report_going (steps : List (Step String))
    (h : (report search request order steps).truncated = false) :
    (report search request order steps).results =
      steps.flatMap (rowsOf search request order) := by
  induction steps using List.reverseRecOn with
  | nil => rfl
  | append_singleton steps e ih =>
      rw [report_snoc] at h ⊢
      unfold reportStep at h ⊢
      split
      · rename_i hstop
        rw [if_pos hstop] at h
        rw [h] at hstop
        exact absurd hstop Bool.false_ne_true
      · rename_i hgo
        rw [if_neg hgo] at h
        obtain ⟨hfull, -⟩ := Bool.or_eq_false_iff.mp h
        have hlt := of_decide_eq_false hfull
        dsimp only
        rw [List.take_of_length_le (by omega), ih (Bool.eq_false_iff.mpr hgo),
          List.flatMap_append, List.flatMap_singleton]

theorem reportStep_results (hmax : 0 < request.maxResults) (steps : List (Step String))
    (e : Step String) :
    (report search request order steps).results <+:
      (reportStep search request order (report search request order steps) e).results := by
  unfold reportStep
  split
  · exact List.prefix_rfl
  · rename_i hgo
    have hroom := report_room hmax steps (Bool.eq_false_iff.mpr hgo)
    dsimp only
    exact List.prefix_take_iff.mpr ⟨List.prefix_append _ _, hroom.le⟩

theorem report_results (hmax : 0 < request.maxResults) (before more : List (Step String)) :
    (report search request order before).results <+:
      (report search request order (before ++ more)).results := by
  induction more using List.reverseRecOn with
  | nil =>
      rw [List.append_nil]
  | append_singleton more e ih =>
      rw [← List.append_assoc, report_snoc]
      exact ih.trans (reportStep_results hmax _ e)

/-- The step that a row comes from was met before any limit. -/
theorem of_mem_report {steps : List (Step String)} {row : LineageRow K}
    (h : row ∈ (report search request order steps).results) :
    ∃ before e behind, steps = before ++ e :: behind ∧
      (report search request order before).truncated = false ∧
      row ∈ rowsOf search request order e := by
  induction steps using List.reverseRecOn with
  | nil => exact absurd h List.not_mem_nil
  | append_singleton steps e ih =>
      have hsplit : row ∈ (report search request order steps).results ∨
          ((report search request order steps).truncated = false ∧
            row ∈ rowsOf search request order e) := by
        rw [report_snoc] at h
        unfold reportStep at h
        split at h
        · exact Or.inl h
        · rename_i hgo
          cases List.mem_append.mp (List.mem_of_mem_take h) with
          | inl hold => exact Or.inl hold
          | inr hnew => exact Or.inr ⟨Bool.eq_false_iff.mpr hgo, hnew⟩
      cases hsplit with
      | inl hold =>
          obtain ⟨before, e', behind, rfl, hgoing, hrow⟩ := ih hold
          exact ⟨before, e', behind ++ [e], by simp, hgoing, hrow⟩
      | inr hnew => exact ⟨steps, e, [], rfl, hnew.1, hnew.2⟩

theorem mem_rowsOf {e : Step String} {row : LineageRow K} :
    row ∈ rowsOf search request order e ↔
      ∃ relatedEntity, search.getEntity e.target = some relatedEntity ∧
        ∃ m ∈ acceptedMatches search request order e.source e.target,
          rowOf ⟨e.source, request.startColumn, e.depth - 1, []⟩ e.target relatedEntity m =
            row := by
  unfold rowsOf
  cases search.getEntity e.target with
  | none => simp
  | some relatedEntity => simp

/-! ## The answer -/

theorem traverse_mono {fuel fuel' : ℕ} {t t' : Traversal K} (hle : fuel ≤ fuel')
    (hrun : traverse search request order fuel t = some t') :
    traverse search request order fuel' t = some t' := by
  induction fuel generalizing fuel' t with
  | zero => contradiction
  | succ fuel ih =>
      obtain ⟨more, rfl⟩ := Nat.exists_eq_add_of_le hle
      have hsucc : fuel + 1 + more = (fuel + more) + 1 := by omega
      rw [hsucc]
      unfold traverse at hrun ⊢
      split at hrun
      · exact hrun
      · dsimp only at hrun ⊢
        split at hrun
        · rename_i hstopped
          rw [if_pos hstopped]
          exact hrun
        · rename_i hgoing
          rw [if_neg hgoing]
          split at hrun
          · rename_i hdeep
            rw [if_pos hdeep]
            exact ih (Nat.le_add_right fuel more) hrun
          · rename_i hnear
            rw [if_neg hnear]
            split at hrun
            · exact ih (Nat.le_add_right fuel more) hrun
            · exact ih (Nat.le_add_right fuel more) hrun

/-- The rows of the search in their final order. -/
def answerOf (order : HashOrder search request) : LineageAnswer K where
  lineage := StableSort.sort compareRows
    (report search request order (searchTree search request)).results
  truncated := (report search request order (searchTree search request)).truncated

theorem mem_answerOf {row : LineageRow K} : row ∈ (answerOf order).lineage ↔
    row ∈ (report search request order (searchTree search request)).results :=
  (StableSort.sort_perm _).mem_iff

/-- The traversal ends with the rows of the search. -/
theorem columnLineage_eq (order : HashOrder search request) (hmax : 0 < request.maxResults) :
    ∃ fuel, ∀ fuel' ≥ fuel,
      columnLineage fuel' search request order = some (answerOf order) := by
  obtain ⟨s, hs, hsteps⟩ := exists_search request.maxDepth (storedRelated_nodes search request)
    request.startId
  have hstart : Agrees search request order (ColumnLineage.start request)
      (BreadthFirst.start request.startId) := by
    refine Or.inr ⟨rfl, rfl, ?_, rfl, hmax, rfl⟩
    intro entry hentry
    rw [List.mem_singleton.mp hentry]
    exact ⟨rfl, rfl⟩
  obtain ⟨t, ht, hreport⟩ := traverse_report hstart hs
  refine ⟨(request.map.flatMap Prod.snd).length + 2, ?_⟩
  intro fuel' hle
  unfold columnLineage answerOf searchTree
  rw [traverse_mono hle ht, hsteps, hreport]
  rfl

theorem columnLineage_unique {fuel fuel' : ℕ} {answer answer' : LineageAnswer K}
    (h : columnLineage fuel search request order = some answer)
    (h' : columnLineage fuel' search request order = some answer') : answer = answer' := by
  unfold columnLineage at h h'
  obtain ⟨t, ht, rfl⟩ := Option.map_eq_some_iff.mp h
  obtain ⟨t', ht', rfl⟩ := Option.map_eq_some_iff.mp h'
  have hrun := traverse_mono (le_max_left fuel fuel') ht
  rw [traverse_mono (le_max_right fuel fuel') ht'] at hrun
  cases hrun
  rfl

theorem getColumnLineage_eq {params : GetColumnLineageParams}
    (h : requestOf search params = .ok request) (order : ∀ request, HashOrder search request) :
    ∃ fuel, ∀ fuel' ≥ fuel,
      getColumnLineage fuel' search params order = .ok (some (answerOf (order request))) := by
  obtain ⟨fuel, hrun⟩ := columnLineage_eq (order request) (requestOf_ok h).2.1
  refine ⟨fuel, ?_⟩
  intro fuel' hle
  unfold getColumnLineage
  rw [h, ← hrun fuel' hle]
  rfl

/-! ## The paths of the rows -/

/-- A path that leads along the map from the start entity to the one before the row's. -/
structure RealPath (request : Request) (row : LineageRow K) : Prop where
  length : row.path.length = row.depth
  first : row.path.head? = some request.startId
  last : row.path.getLast? = some row.sourceEntity
  edges : List.IsChain (Edge request) (row.path ++ [row.uniqueId])

/-- The path of a row of this step has one entity. -/
theorem realPath_iff (hstored : (search.getEntity request.startId).isSome) {e : Step String}
    (he : e ∈ searchTree search request) {row : LineageRow K}
    (hrow : row ∈ rowsOf search request order e) :
    RealPath request row ↔ Edge request request.startId row.uniqueId := by
  have hspec := searchTree_spec search request
  obtain ⟨relatedEntity, -, m, -, rfl⟩ := mem_rowsOf.mp hrow
  obtain ⟨depth, hdepth, -⟩ := hspec.source_of_mem he
  obtain ⟨hedge, hsource, htarget⟩ := mem_storedRelated.mp (hspec.edge e he).1
  constructor
  · intro h
    have hfirst : e.source = request.startId := Option.some.inj h.first
    rw [← hfirst]
    exact hedge
  · intro h
    -- the entity is next to the start entity, so the search finds it in its first turn
    have hnear := (hspec.depth_eq_one_iff he).mpr (mem_storedRelated.mpr ⟨h, hstored, htarget⟩)
    have hroot := (hspec.source_eq_root_iff he).mpr hnear
    refine ⟨?_, ?_, rfl, ?_⟩
    · change 1 = e.depth - 1 + 1
      omega
    · exact congrArg some hroot
    · exact List.IsChain.cons_cons hedge (List.IsChain.singleton _)

/-- The path of a row is real where the traversed map names its entity next to the start
entity. -/
theorem column_path_real_iff (search : ManifestSearch K) (params : GetColumnLineageParams)
    (request : Request) (hrequest : requestOf search params = .ok request)
    (order : ∀ request, HashOrder search request) :
    ∃ fuel answer,
      (∀ fuel' ≥ fuel, getColumnLineage fuel' search params order = .ok (some answer)) ∧
      ∀ row ∈ answer.lineage,
        RealPath request row ↔ Edge request request.startId row.uniqueId := by
  obtain ⟨fuel, hrun⟩ := getColumnLineage_eq hrequest order
  refine ⟨fuel, answerOf (order request), hrun, ?_⟩
  intro row hrow
  obtain ⟨before, e, behind, hsplit, -, hrow⟩ := of_mem_report (mem_answerOf.mp hrow)
  apply realPath_iff (requestOf_ok hrequest).1 _ hrow
  rw [hsplit]
  exact List.mem_append_right _ List.mem_cons_self

end Rows

/-! ## A chain of three models -/

section Chain

/-- ASCII texts, and SQL without aliases. -/
def asciiOut : Surroundings where
  toLowercase := Text.toAsciiLowercase
  isAlphanumeric := Char.isAlphanum
  findSqlAliases := fun _ => ⟨[], List.nodup_nil⟩

/-- `ColumnLineageConfig::default`. -/
def defaultConfig : ColumnLineageConfig ℚ where
  defaultConfidence := "medium"
  levenshteinThreshold := 75 / 100
  sqlProximityMaxDistance := 100
  minPrefixSuffixLength := 2
  minLevenshteinLength := 3
  maxResults := 10000
  maxDepth := 100
  maxMatchCandidates := 10000
  matching :=
    { exactMatch := ⟨true, .high, 1⟩
      sqlAlias := ⟨true, .medium, 9 / 10⟩
      sqlProximity := ⟨true, .medium, 8 / 10⟩
      suffixMatch := ⟨true, .low, 4 / 10⟩
      prefixMatch := ⟨true, .low, 4 / 10⟩
      normalizedMatch := ⟨true, .low, 5 / 10⟩
      levenshteinMatch := ⟨true, .low, 6 / 10⟩ }

/-- The model in the middle has this column. -/
def chain (middle : String) : ManifestSearch ℚ where
  out := asciiOut
  config := defaultConfig
  parentMap := []
  childMap := [("model.a", ["model.b"]), ("model.b", ["model.c"])]
  entities :=
    [("model.a", ⟨["id"], .null⟩), ("model.b", ⟨[middle], .null⟩), ("model.c", ⟨["id"], .null⟩)]
  columnLineageAliases := []

def idBelow : GetColumnLineageParams := ⟨"model.a", "id", "downstream", none, none⟩

theorem requestOf_chain :
    ∃ request, requestOf (chain "id") idBelow = .ok request := by
  have hok : (requestOf (chain "id") idBelow).toOption.isSome = true := by decide
  obtain ⟨request, hrequest⟩ := Option.isSome_iff_exists.mp hok
  exact ⟨request, toOption_eq_some.mp hrequest⟩

/-- An answer that is known by some data of its rows. -/
theorem exists_answer {K β : Type*} [Field K] [LinearOrder K] {fuel : ℕ}
    {search : ManifestSearch K} {params : GetColumnLineageParams}
    {order : ∀ request, HashOrder search request} {f : LineageRow K → β} {rows : List β}
    (h : ((getColumnLineage fuel search params order).toOption.bind id).map
      (fun answer => answer.lineage.map f) = some rows) :
    ∃ answer, getColumnLineage fuel search params order = .ok (some answer) ∧
      answer.lineage.map f = rows := by
  obtain ⟨answer, hanswer, hrows⟩ := Option.map_eq_some_iff.mp h
  obtain ⟨result, hresult, hid⟩ := Option.bind_eq_some_iff.mp hanswer
  refine ⟨answer, ?_, hrows⟩
  rw [toOption_eq_some.mp hresult]
  exact congrArg Except.ok hid

theorem column_path_real_chain :
    ∃ request, requestOf (chain "id") idBelow = .ok request ∧ ∃ fuel answer,
      (∀ fuel' ≥ fuel,
        getColumnLineage fuel' (chain "id") idBelow (insertionOrder _) = .ok (some answer)) ∧
      ∀ row ∈ answer.lineage,
        RealPath request row ↔ Edge request request.startId row.uniqueId := by
  obtain ⟨request, hrequest⟩ := requestOf_chain
  exact ⟨request, hrequest,
    column_path_real_iff (chain "id") idBelow request hrequest (insertionOrder _)⟩

/-- The row of the last model has the middle one as its whole path. -/
theorem second_level_path_cut :
    ¬ ∀ (search : ManifestSearch ℚ) (params : GetColumnLineageParams) (request : Request)
      (order : ∀ request, HashOrder search request) (fuel : ℕ) (answer : LineageAnswer ℚ),
      requestOf search params = .ok request →
      getColumnLineage fuel search params order = .ok (some answer) →
      ∀ row ∈ answer.lineage, RealPath request row := by
  intro h
  obtain ⟨request, hrequest⟩ := requestOf_chain
  have hrun : ((getColumnLineage 5 (chain "id") idBelow (insertionOrder _)).toOption.bind id).map
      (fun answer => answer.lineage.map fun row => (row.depth, row.path)) =
        some [(1, ["model.a"]), (2, ["model.b"])] := by decide +kernel
  obtain ⟨answer, hanswer, hrows⟩ := exists_answer hrun
  have hlast : (2, ["model.b"]) ∈ answer.lineage.map fun row => (row.depth, row.path) := by
    rw [hrows]
    exact List.mem_cons_of_mem _ (List.mem_singleton_self _)
  obtain ⟨row, hrow, hpair⟩ := List.mem_map.mp hlast
  obtain ⟨hdepth, hpath⟩ := Prod.mk.inj hpair
  have hlength := (h _ _ request _ 5 answer hrequest hanswer row hrow).length
  rw [hdepth, hpath] at hlength
  exact absurd hlength (by decide)

end Chain

/-! ## The columns of the rows -/

section Columns
variable {K : Type*} [Field K] [LinearOrder K] {search : ManifestSearch K} {request : Request}
  {order : HashOrder search request}

/-- A row of the level before reports the row's source column in its source entity. -/
def FollowsColumn (rows : List (LineageRow K)) (row : LineageRow K) : Prop :=
  ∃ row' ∈ rows, row'.depth + 1 = row.depth ∧ row'.uniqueId = row.sourceEntity ∧
    row'.column = row.sourceColumn

/-- The requested column, as it is spelled, is a match in the entity where the search has
reached it. -/
def KeepsName (order : HashOrder search request) (id : String) : Prop :=
  ∃ e ∈ searchTree search request, e.target = id ∧
    ∃ m ∈ acceptedMatches search request order e.source e.target,
      m.columnName = request.startColumn

theorem followsColumn_iff {before behind : List (Step String)} {e : Step String}
    (hsplit : searchTree search request = before ++ e :: behind)
    (hgoing : (report search request order before).truncated = false)
    (hmax : 0 < request.maxResults) {row : LineageRow K}
    (hrow : row ∈ rowsOf search request order e) (hdepth : 1 < row.depth) :
    FollowsColumn (report search request order (searchTree search request)).results row ↔
      KeepsName order row.sourceEntity := by
  have hspec := searchTree_spec search request
  obtain ⟨relatedEntity, -, m, -, rfl⟩ := mem_rowsOf.mp hrow
  change 1 < e.depth - 1 + 1 at hdepth
  constructor
  · intro h
    obtain ⟨row', hrow', -, hentity, hcolumn⟩ := h
    obtain ⟨before', e', behind', hsplit', -, hfrom⟩ := of_mem_report hrow'
    obtain ⟨relatedEntity', -, m', hm', rfl⟩ := mem_rowsOf.mp hfrom
    refine ⟨e', ?_, hentity, m', hm', hcolumn⟩
    rw [hsplit']
    exact List.mem_append_right _ List.mem_cons_self
  · intro h
    obtain ⟨e', he', htarget, m', hm', hcolumn⟩ := h
    -- the step that reached the source entity was met before
    have hfront : before ++ [e] <+: searchTree search request :=
      ⟨behind, by rw [hsplit]; simp⟩
    obtain ⟨depth, hlevel, hfollows⟩ := hspec.source before e hfront
    cases hfollows with
    | inl hroot => omega
    | inr hstep =>
        obtain ⟨e'', hmem, htarget'', hdepth''⟩ := hstep
        have hsame : e'' = e' := by
          apply hspec.unique _ he' (htarget''.trans htarget.symm)
          rw [hsplit]
          exact List.mem_append_left _ hmem
        subst hsame
        obtain ⟨depth', hlevel', -⟩ := hspec.source_of_mem he'
        obtain ⟨-, -, hstored⟩ := mem_storedRelated.mp (hspec.edge e'' he').1
        obtain ⟨entity, hentity⟩ := Option.isSome_iff_exists.mp hstored
        refine ⟨rowOf ⟨e''.source, request.startColumn, e''.depth - 1, []⟩ e''.target entity m', ?_,
          ?_, htarget, hcolumn⟩
        · rw [hsplit]
          apply (report_results hmax before (e :: behind)).subset
          rw [report_going before hgoing]
          exact List.mem_flatMap.mpr ⟨e'', hmem, mem_rowsOf.mpr ⟨entity, hentity, m', hm', rfl⟩⟩
        · change e''.depth - 1 + 1 + 1 = e.depth - 1 + 1
          omega

/-- Behind the first level a row follows the column of its source entity where the column has
kept the name that was requested. -/
theorem column_followed_iff (search : ManifestSearch K) (params : GetColumnLineageParams)
    (request : Request) (hrequest : requestOf search params = .ok request)
    (order : ∀ request, HashOrder search request) :
    ∃ fuel answer,
      (∀ fuel' ≥ fuel, getColumnLineage fuel' search params order = .ok (some answer)) ∧
      ∀ row ∈ answer.lineage, 1 < row.depth →
        (FollowsColumn answer.lineage row ↔ KeepsName (order request) row.sourceEntity) := by
  obtain ⟨fuel, hrun⟩ := getColumnLineage_eq hrequest order
  refine ⟨fuel, answerOf (order request), hrun, ?_⟩
  intro row hrow hdepth
  obtain ⟨before, e, behind, hsplit, hgoing, hfrom⟩ := of_mem_report (mem_answerOf.mp hrow)
  rw [← followsColumn_iff hsplit hgoing (requestOf_ok hrequest).2.1 hfrom hdepth]
  unfold FollowsColumn
  simp only [mem_answerOf]

end Columns

section Chain

theorem column_followed_chain :
    ∃ request, requestOf (chain "id") idBelow = .ok request ∧ ∃ fuel answer,
      (∀ fuel' ≥ fuel,
        getColumnLineage fuel' (chain "id") idBelow (insertionOrder _) = .ok (some answer)) ∧
      ∀ row ∈ answer.lineage, 1 < row.depth →
        (FollowsColumn answer.lineage row ↔
          KeepsName (insertionOrder (chain "id") request) row.sourceEntity) := by
  obtain ⟨request, hrequest⟩ := requestOf_chain
  exact ⟨request, hrequest,
    column_followed_iff (chain "id") idBelow request hrequest (insertionOrder _)⟩

/-- The last model is reached through one that has no column like the requested one. -/
theorem unmatched_entity_passed :
    ¬ ∀ (search : ManifestSearch ℚ) (params : GetColumnLineageParams)
      (order : ∀ request, HashOrder search request) (fuel : ℕ) (answer : LineageAnswer ℚ),
      getColumnLineage fuel search params order = .ok (some answer) →
      ∀ row ∈ answer.lineage, 1 < row.depth → FollowsColumn answer.lineage row := by
  intro h
  have hrun : ((getColumnLineage 5 (chain "total") idBelow
      (insertionOrder _)).toOption.bind id).map
        (fun answer => answer.lineage.map fun row => row.depth) = some [2] := by decide +kernel
  obtain ⟨answer, hanswer, hrows⟩ := exists_answer hrun
  have hlast : 2 ∈ answer.lineage.map fun row => row.depth := by
    rw [hrows]
    exact List.mem_singleton_self 2
  obtain ⟨row, hrow, hdepth⟩ := List.mem_map.mp hlast
  obtain ⟨row', hrow', hlevel, -⟩ := h _ _ _ 5 answer hanswer row hrow (by omega)
  have hother : row'.depth ∈ answer.lineage.map fun row => row.depth :=
    List.mem_map_of_mem hrow'
  rw [hrows, List.mem_singleton] at hother
  omega

end Chain

end DbtNova.ColumnLineage
