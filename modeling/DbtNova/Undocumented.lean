import DbtNova.EntityMeta
import DbtNova.RowPages
import DbtNova.SearchPages

/-!
# Undocumented entities and columns

`get_undocumented` of `tools/undocumented.rs`. Entities and their columns are counted by one
counter, and a page has some of either kind.
-/
namespace DbtNova.Undocumented
open RowPages SearchPages

structure Entity where
  name : Option String
  resourceType : Option String
  packageName : Option String
  originalFilePath : Option String
  /-- `to_json_value` -/
  json : JsonValue

structure ManifestSearch (K : Type*) where
  config : RankFusion.SearchConfig K
  /-- The ids of a resource type, or the one that a name resolves to -/
  candidates : String → Option String → Result (List String)
  getEntity : String → Result (Option Entity)

structure GetUndocumentedParams where
  resourceType : String
  idOrName : Option String
  package : Option String
  pathPrefix : Option String
  includeColumns : Bool
  includeFull : Bool
  limit : Option ℕ
  offset : ℕ

structure Summary where
  entitiesMissingDocs : ℕ
  columnsMissingDocs : ℕ
  entitiesReturned : ℕ
  columnsReturned : ℕ
  itemsReturned : ℕ

structure UndocumentedItems where
  entities : List JsonValue
  summary : Summary
  columnsTruncated : Bool
  undocumentedColumns : List JsonValue

/-- The variables of the loop. -/
structure Missing where
  undocumentedEntities : List JsonValue
  undocumentedColumns : List JsonValue
  seenMissingItems : ℕ
  totalMissingEntities : ℕ
  totalMissingColumns : ℕ
  returnedTotal : ℕ

def withUniqueId (entity : JsonValue) (uniqueId : String) : JsonValue :=
  match entity with
  | .object fields => .object (JsonValue.putField "unique_id" (.string uniqueId) fields)
  | other => other

def optionalText (text : Option String) : JsonValue := (text.map JsonValue.string).getD .null

def entityItem (params : GetUndocumentedParams) (uniqueId : String) (entity : Entity) : JsonValue :=
  if params.includeFull then withUniqueId entity.json uniqueId
  else
    .object [("name", optionalText entity.name),
      ("resource_type", optionalText entity.resourceType), ("unique_id", .string uniqueId)]

def columnItem (uniqueId columnName : String) : JsonValue :=
  .object [("column_name", .string columnName), ("entity_unique_id", .string uniqueId)]

def lacksDescription (value : JsonValue) : Bool :=
  (Text.trim ((value.getStr "description").getD "")).isEmpty

def inScope (params : GetUndocumentedParams) (entity : Entity) : Bool :=
  let path := (entity.originalFilePath.or (entity.json.getStr "path")).getD ""
  params.package.all (fun package => entity.packageName == some package) &&
    params.pathPrefix.all fun front => front.toList.isPrefixOf path.toList

/-- Whether the next missing item belongs to the page. -/
def onPage (limit offset : ℕ) (state : Missing) : Bool :=
  decide (offset ≤ state.seenMissingItems) && decide (state.returnedTotal < limit)

def columnRound (limit offset : ℕ) (uniqueId : String) (state : Missing)
    (column : String × JsonValue) : Missing :=
  if lacksDescription column.2 then
    let included := onPage limit offset state
    { state with
      totalMissingColumns := state.totalMissingColumns + 1
      undocumentedColumns :=
        if included then state.undocumentedColumns ++ [columnItem uniqueId column.1]
        else state.undocumentedColumns
      returnedTotal := if included then state.returnedTotal + 1 else state.returnedTotal
      seenMissingItems := state.seenMissingItems + 1 }
  else state

def entityRound (params : GetUndocumentedParams) (limit : ℕ) (state : Missing) (uniqueId : String)
    (entity : Entity) : Missing :=
  if inScope params entity then
    let missing := lacksDescription entity.json
    let includeEntity := missing && onPage limit params.offset state
    let counted :=
      if missing then
        { state with
          totalMissingEntities := state.totalMissingEntities + 1
          returnedTotal := if includeEntity then state.returnedTotal + 1 else state.returnedTotal
          seenMissingItems := state.seenMissingItems + 1 }
      else state
    let columns := ((entity.json.get "columns").bind JsonValue.asObject).getD []
    let scanned :=
      if params.includeColumns then
        columns.foldl (columnRound limit params.offset uniqueId) counted
      else counted
    -- the entity is pushed behind its columns, to a list of its own
    if includeEntity then
      { scanned with
        undocumentedEntities :=
          scanned.undocumentedEntities ++ [entityItem params uniqueId entity] }
    else scanned
  else state

def scanCandidates {K : Type*} (search : ManifestSearch K) (params : GetUndocumentedParams)
    (limit : ℕ) (candidates : List String) : Result Missing :=
  candidates.foldlM (fun state uniqueId =>
    (search.getEntity uniqueId).map fun entity =>
      match entity with
      | none => state
      | some entity => entityRound params limit state uniqueId entity) ⟨[], [], 0, 0, 0, 0⟩

def undocumentedResponse (offset : ℕ) (state : Missing) : SuccessResponse UndocumentedItems :=
  let returnedEntities := state.undocumentedEntities.length
  let returnedColumns := state.undocumentedColumns.length
  let totalMissing := state.totalMissingEntities + state.totalMissingColumns
  { data :=
      { entities := state.undocumentedEntities
        summary :=
          ⟨state.totalMissingEntities, state.totalMissingColumns, returnedEntities,
            returnedColumns, state.returnedTotal⟩
        columnsTruncated :=
          decide (offset + state.returnedTotal < totalMissing) &&
            decide (returnedColumns < state.totalMissingColumns)
        undocumentedColumns := state.undocumentedColumns }
    count := state.returnedTotal
    total := some totalMissing
    truncated := if offset + state.returnedTotal < totalMissing then some true else none }

def getUndocumented {K : Type*} (search : ManifestSearch K) (params : GetUndocumentedParams) :
    Result (SuccessResponse UndocumentedItems) :=
  if search.config.maxOffset < params.offset then
    .error (offsetExceeded search.config.maxOffset)
  else do
    let candidates ← search.candidates params.resourceType params.idOrName
    let state ← scanCandidates search params (pageLimit search.config params.limit) candidates
    pure (undocumentedResponse params.offset state)

/-! ## The items of the list -/

inductive Item
  | entity (value : JsonValue)
  | column (value : JsonValue)

def Item.entity? : Item → Option JsonValue
  | .entity value => some value
  | .column _ => none

def Item.column? : Item → Option JsonValue
  | .entity _ => none
  | .column value => some value

section Items
variable {params : GetUndocumentedParams} {limit offset : ℕ} {state : Missing} {uniqueId : String}

/-- The columns without a description. -/
def missingColumns (uniqueId : String) (columns : List (String × JsonValue)) : List Item :=
  (columns.filter fun column => lacksDescription column.2).map fun column =>
    .column (columnItem uniqueId column.1)

/-- What an entity adds to the list: itself before its columns. -/
def missingItems (params : GetUndocumentedParams) (uniqueId : String) (entity : Entity) :
    List Item :=
  if inScope params entity then
    (if lacksDescription entity.json then [.entity (entityItem params uniqueId entity)] else []) ++
      if params.includeColumns then
        missingColumns uniqueId (((entity.json.get "columns").bind JsonValue.asObject).getD [])
      else []
  else []

def note (limit offset : ℕ) (state : Missing) : Item → Missing
  | .entity value =>
      { state with
        totalMissingEntities := state.totalMissingEntities + 1
        undocumentedEntities :=
          if onPage limit offset state then state.undocumentedEntities ++ [value]
          else state.undocumentedEntities
        returnedTotal :=
          if onPage limit offset state then state.returnedTotal + 1 else state.returnedTotal
        seenMissingItems := state.seenMissingItems + 1 }
  | .column value =>
      { state with
        totalMissingColumns := state.totalMissingColumns + 1
        undocumentedColumns :=
          if onPage limit offset state then state.undocumentedColumns ++ [value]
          else state.undocumentedColumns
        returnedTotal :=
          if onPage limit offset state then state.returnedTotal + 1 else state.returnedTotal
        seenMissingItems := state.seenMissingItems + 1 }

theorem foldl_columnRound (columns : List (String × JsonValue)) (state : Missing) :
    columns.foldl (columnRound limit offset uniqueId) state =
      (missingColumns uniqueId columns).foldl (note limit offset) state := by
  induction columns generalizing state with
  | nil => rfl
  | cons column columns ih =>
      rw [List.foldl_cons, ih]
      unfold missingColumns
      cases hmissing : lacksDescription column.2 with
      | false =>
          have hround : columnRound limit offset uniqueId state column = state := by
            unfold columnRound
            rw [hmissing]
            rfl
          have hskip := List.filter_cons_of_neg (l := columns)
            (p := fun column : String × JsonValue => lacksDescription column.2)
            (show ¬ lacksDescription column.2 = true by simp [hmissing])
          rw [hround, hskip]
      | true =>
          have hround : columnRound limit offset uniqueId state column =
              note limit offset state (.column (columnItem uniqueId column.1)) := by
            unfold columnRound
            rw [hmissing]
            rfl
          have hkeep := List.filter_cons_of_pos (l := columns)
            (p := fun column : String × JsonValue => lacksDescription column.2) hmissing
          rw [hround, hkeep]
          rfl

def pushEntity (state : Missing) (value : JsonValue) : Missing :=
  { state with undocumentedEntities := state.undocumentedEntities ++ [value] }

/-- Columns leave the list of the entities alone. -/
theorem foldl_columnRound_push (columns : List (String × JsonValue)) (state : Missing)
    (value : JsonValue) :
    columns.foldl (columnRound limit offset uniqueId) (pushEntity state value) =
      pushEntity (columns.foldl (columnRound limit offset uniqueId) state) value := by
  induction columns generalizing state with
  | nil => rfl
  | cons column columns ih =>
      have hround : columnRound limit offset uniqueId (pushEntity state value) column =
          pushEntity (columnRound limit offset uniqueId state column) value := by
        unfold columnRound
        split
        · rfl
        · rfl
      rw [List.foldl_cons, List.foldl_cons, hround, ih]

/-- A round counts the items of its entity one by one. -/
theorem entityRound_eq (state : Missing) (uniqueId : String) (entity : Entity) :
    entityRound params limit state uniqueId entity =
      (missingItems params uniqueId entity).foldl (note limit params.offset) state := by
  unfold entityRound missingItems
  cases inScope params entity with
  | false => rfl
  | true =>
      dsimp only
      rw [if_pos rfl, if_pos rfl, List.foldl_append]
      have hcolumns : ∀ state : Missing,
          (if params.includeColumns then
            (((entity.json.get "columns").bind JsonValue.asObject).getD []).foldl
              (columnRound limit params.offset uniqueId) state
          else state) =
            (if params.includeColumns then missingColumns uniqueId
              (((entity.json.get "columns").bind JsonValue.asObject).getD []) else []).foldl
                (note limit params.offset) state := by
        intro state
        cases params.includeColumns with
        | false => rfl
        | true => exact foldl_columnRound _ state
      have hpush : ∀ (state : Missing) (value : JsonValue),
          pushEntity (if params.includeColumns then
            (((entity.json.get "columns").bind JsonValue.asObject).getD []).foldl
              (columnRound limit params.offset uniqueId) state
          else state) value =
            (if params.includeColumns then missingColumns uniqueId
              (((entity.json.get "columns").bind JsonValue.asObject).getD []) else []).foldl
                (note limit params.offset) (pushEntity state value) := by
        intro state value
        rw [← hcolumns]
        cases params.includeColumns with
        | false => rfl
        | true => exact (foldl_columnRound_push _ state value).symm
      cases hmissing : lacksDescription entity.json with
      | false => exact hcolumns state
      | true =>
          cases hpage : onPage limit params.offset state with
          | false =>
              have hnote : note limit params.offset state
                  (.entity (entityItem params uniqueId entity)) =
                    { state with
                      totalMissingEntities := state.totalMissingEntities + 1
                      seenMissingItems := state.seenMissingItems + 1 } := by
                unfold note
                rw [hpage]
                rfl
              exact (hcolumns _).trans (congrArg (List.foldl _ · _) hnote.symm)
          | true =>
              have hnote : note limit params.offset state
                  (.entity (entityItem params uniqueId entity)) =
                    pushEntity
                      { state with
                        totalMissingEntities := state.totalMissingEntities + 1
                        returnedTotal := state.returnedTotal + 1
                        seenMissingItems := state.seenMissingItems + 1 }
                      (entityItem params uniqueId entity) := by
                unfold note pushEntity
                rw [hpage]
                rfl
              exact (hpush _ _).trans (congrArg (List.foldl _ · _) hnote.symm)

end Items

/-! ## The page of a list of items -/

section Page
variable {limit offset : ℕ} {items : List Item} {state : Missing}

/-- The items of a page. -/
def window (limit offset : ℕ) (items : List Item) : List Item := (items.drop offset).take limit

/-- What the loop knows after these items. -/
structure Shows (limit offset : ℕ) (items : List Item) (state : Missing) : Prop where
  seen : state.seenMissingItems = items.length
  returned : state.returnedTotal = (window limit offset items).length
  entities : state.undocumentedEntities = (window limit offset items).filterMap Item.entity?
  columns : state.undocumentedColumns = (window limit offset items).filterMap Item.column?
  total : state.totalMissingEntities + state.totalMissingColumns = items.length

theorem window_concat (limit offset : ℕ) (items : List Item) (item : Item) :
    window limit offset (items ++ [item]) =
      if offset ≤ items.length ∧ (window limit offset items).length < limit then
        window limit offset items ++ [item]
      else window limit offset items := by
  unfold window
  by_cases hoffset : offset ≤ items.length
  · rw [List.drop_append_of_le_length hoffset, List.length_take]
    by_cases hroom : (items.drop offset).length < limit
    · rw [if_pos ⟨hoffset, by omega⟩, List.take_of_length_le, List.take_of_length_le hroom.le]
      rw [List.length_append, List.length_singleton]
      omega
    · rw [if_neg (by omega), List.take_append_of_le_length (Nat.not_lt.mp hroom)]
  · have hnone : items.drop offset = [] := List.drop_of_length_le (by omega)
    have hnone' : (items ++ [item]).drop offset = [] := by
      apply List.drop_of_length_le
      rw [List.length_append, List.length_singleton]
      omega
    rw [hnone, hnone', if_neg fun h => hoffset h.1]

theorem Shows.note (h : Shows limit offset items state) (item : Item) :
    Shows limit offset (items ++ [item]) (note limit offset state item) := by
  have hpage : onPage limit offset state = true ↔
      offset ≤ items.length ∧ (window limit offset items).length < limit := by
    unfold onPage
    rw [Bool.and_eq_true, decide_eq_true_eq, decide_eq_true_eq, h.seen, h.returned]
  have hlength : (items ++ [item]).length = items.length + 1 := by simp
  have htotal := h.total
  have hwindow := window_concat limit offset items item
  cases hincluded : onPage limit offset state with
  | false =>
      rw [if_neg fun hin => Bool.false_ne_true (hincluded.symm.trans (hpage.mpr hin))] at hwindow
      cases item with
      | entity value =>
          constructor <;> simp only [Undocumented.note, hincluded, hwindow, hlength]
          · exact congrArg (· + 1) h.seen
          · exact h.returned
          · exact h.entities
          · exact h.columns
          · omega
      | column value =>
          constructor <;> simp only [Undocumented.note, hincluded, hwindow, hlength]
          · exact congrArg (· + 1) h.seen
          · exact h.returned
          · exact h.entities
          · exact h.columns
          · omega
  | true =>
      rw [if_pos (hpage.mp hincluded)] at hwindow
      cases item with
      | entity value =>
          constructor <;> simp only [Undocumented.note, hincluded, hwindow, hlength, if_true,
            List.filterMap_append, List.length_append, h.entities, h.columns, h.returned, h.seen]
          · rfl
          · rfl
          · exact (List.append_nil _).symm
          · omega
      | column value =>
          constructor <;> simp only [Undocumented.note, hincluded, hwindow, hlength, if_true,
            List.filterMap_append, List.length_append, h.entities, h.columns, h.returned, h.seen]
          · rfl
          · exact (List.append_nil _).symm
          · rfl
          · omega

theorem Shows.foldl (h : Shows limit offset items state) (more : List Item) :
    Shows limit offset (items ++ more) (more.foldl (Undocumented.note limit offset) state) := by
  induction more generalizing items state with
  | nil =>
      rw [List.append_nil]
      exact h
  | cons item more ih =>
      rw [List.append_cons]
      exact ih (h.note item)

theorem Shows.start (limit offset : ℕ) : Shows limit offset [] ⟨[], [], 0, 0, 0, 0⟩ := by
  constructor <;> simp [window]

end Page

section List
variable {K : Type*} {search : ManifestSearch K} {params : GetUndocumentedParams} {limit : ℕ}

/-- What an id adds to the list; an entity that is not there adds nothing. -/
def itemsOf (params : GetUndocumentedParams) (uniqueId : String) (entity : Option Entity) :
    List Item :=
  (entity.map (missingItems params uniqueId)).getD []

/-- All items that a request is about, in the order of the candidates. -/
def missingList (search : ManifestSearch K) (params : GetUndocumentedParams) :
    Result (List Item) := do
  let candidates ← search.candidates params.resourceType params.idOrName
  candidates.foldlM (fun items uniqueId =>
    (search.getEntity uniqueId).map fun entity => items ++ itemsOf params uniqueId entity) []

theorem foldlM_shows (candidates : List String) {found items : List Item} {state : Missing}
    (h : candidates.foldlM (fun items uniqueId =>
      (search.getEntity uniqueId).map fun entity => items ++ itemsOf params uniqueId entity) found =
        .ok items) (hstate : Shows limit params.offset found state) :
    ∃ state', candidates.foldlM (fun state uniqueId =>
        (search.getEntity uniqueId).map fun entity =>
          match entity with
          | none => state
          | some entity => entityRound params limit state uniqueId entity) state = .ok state' ∧
      Shows limit params.offset items state' := by
  induction candidates generalizing found state with
  | nil =>
      rw [List.foldlM_nil] at h
      rw [← Except.ok.inj h]
      exact ⟨state, rfl, hstate⟩
  | cons uniqueId candidates ih =>
      rw [List.foldlM_cons] at h ⊢
      cases hentity : search.getEntity uniqueId with
      | error error =>
          rw [hentity] at h
          contradiction
      | ok entity =>
          rw [hentity] at h
          cases entity with
          | none =>
              have hsame : found ++ itemsOf params uniqueId none = found := List.append_nil found
              have hnext := ih h (hsame.symm ▸ hstate)
              exact hnext
          | some entity =>
              have hround := hstate.foldl (missingItems params uniqueId entity)
              rw [← entityRound_eq] at hround
              exact ih h hround

/-- Every accepted request shows its window of the list. -/
theorem getUndocumented_eq {items : List Item} (h : missingList search params = .ok items)
    (hoffset : params.offset ≤ search.config.maxOffset) :
    ∃ state, getUndocumented search params = .ok (undocumentedResponse params.offset state) ∧
      Shows (pageLimit search.config params.limit) params.offset items state := by
  obtain ⟨candidates, hcandidates, hitems⟩ := bind_eq_ok.mp h
  obtain ⟨state, hstate, hshows⟩ := foldlM_shows candidates hitems
    (Shows.start (pageLimit search.config params.limit) params.offset)
  refine ⟨state, ?_, hshows⟩
  unfold getUndocumented
  rw [if_neg (Nat.not_lt.mpr hoffset)]
  exact bind_eq_ok.mpr ⟨candidates, hcandidates, bind_eq_ok.mpr ⟨state, hstate, rfl⟩⟩

theorem Shows.truncated_iff {offset : ℕ} {items : List Item} {state : Missing}
    (h : Shows limit offset items state) :
    (undocumentedResponse offset state).truncated = some true ↔ offset + limit < items.length := by
  have hwindow : (window limit offset items).length = min limit (items.length - offset) := by
    unfold window
    rw [List.length_take, List.length_drop]
  unfold undocumentedResponse
  dsimp only
  rw [h.total, h.returned, hwindow]
  split
  · rename_i hmore
    exact iff_of_true rfl (by omega)
  · rename_i hmore
    exact iff_of_false (Option.some_ne_none true ∘ Eq.symm) (by omega)

/-- The pages of the two kinds of items, under one counter. -/
theorem getUndocumented_pages {items : List Item} (h : missingList search params = .ok items) :
    PagesOf (fun offset => getUndocumented search { params with offset := offset })
        UndocumentedItems.entities Item.entity? items search.config.maxOffset
          (pageLimit search.config params.limit) ∧
      PagesOf (fun offset => getUndocumented search { params with offset := offset })
        UndocumentedItems.undocumentedColumns Item.column? items search.config.maxOffset
          (pageLimit search.config params.limit) := by
  have hpos := zero_lt_pageLimit search.config params.limit
  have hpage : ∀ offset ≤ search.config.maxOffset, ∃ state,
      getUndocumented search { params with offset := offset } =
          .ok (undocumentedResponse offset state) ∧
        Shows (pageLimit search.config params.limit) offset items state := by
    intro offset hoffset
    have hlist : missingList search { params with offset := offset } = .ok items := h
    exact getUndocumented_eq hlist hoffset
  have hrefused : ∀ offset, search.config.maxOffset < offset →
      getUndocumented search { params with offset := offset } =
        .error (offsetExceeded search.config.maxOffset) := by
    intro offset hoffset
    unfold getUndocumented
    exact if_pos hoffset
  constructor
  · apply PagesOf.of_slice hpos _ hrefused
    intro offset hoffset
    obtain ⟨state, hstate, hshows⟩ := hpage offset hoffset
    exact ⟨_, hstate, hshows.entities, congrArg some hshows.total, hshows.truncated_iff⟩
  · apply PagesOf.of_slice hpos _ hrefused
    intro offset hoffset
    obtain ⟨state, hstate, hshows⟩ := hpage offset hoffset
    exact ⟨_, hstate, hshows.columns, congrArg some hshows.total, hshows.truncated_iff⟩

end List

end DbtNova.Undocumented
