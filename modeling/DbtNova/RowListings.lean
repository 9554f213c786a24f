import DbtNova.ColumnRows
import DbtNova.IndicatorInventory
import DbtNova.Undocumented

/-!
# The listing tools

The rows of `search_columns`, `column_inventory` and `indicator_inventory` do not depend on the
order of the store, and their pages, like those of `get_undocumented`, are the slices of one list
as far as offsets are accepted.
-/
namespace DbtNova.RowListings
open RowPages SearchPages ColumnRows IndicatorInventory Undocumented

theorem rows_listed {K : Type*} [Field K] [LinearOrder K] (columns : ColumnRows.ManifestSearch K)
    (searchParams : SearchColumnsParams K) (columnParams : ColumnInventoryParams)
    (indicators : IndicatorInventory.ManifestSearch K)
    (indicatorParams : IndicatorInventoryParams) (undocumented : Undocumented.ManifestSearch K)
    (undocumentedParams : GetUndocumentedParams) :
    (∀ {ids : List String} (h : columns.store.ids.Perm ids),
        (columnSearchList columns searchParams).toOption =
            (columnSearchList (columns.reordered h) searchParams).toOption ∧
          (columnInventoryList columns columnParams).toOption =
            (columnInventoryList (columns.reordered h) columnParams).toOption) ∧
      (∀ {ids : List String} (h : indicators.store.ids.Perm ids),
        (indicatorInventoryList indicators indicatorParams).toOption =
          (indicatorInventoryList (indicators.reordered h) indicatorParams).toOption) ∧
      (∀ rows, columnSearchList columns searchParams = .ok rows →
        PagesOf (fun offset => searchColumns columns { searchParams with offset := offset }) id
          some rows columns.config.maxOffset (pageLimit columns.config searchParams.limit)) ∧
      (∀ rows, columnInventoryList columns columnParams = .ok rows →
        PagesOf (fun offset => columnInventory columns { columnParams with offset := offset }) id
          some rows columns.config.maxOffset (pageLimit columns.config columnParams.limit)) ∧
      (∀ rows, indicatorInventoryList indicators indicatorParams = .ok rows →
        PagesOf
          (fun offset => indicatorInventory indicators { indicatorParams with offset := offset })
          id some rows indicators.config.maxOffset
            (pageLimit indicators.config indicatorParams.limit)) ∧
      ∀ items, missingList undocumented undocumentedParams = .ok items →
        PagesOf
            (fun offset => getUndocumented undocumented
              { undocumentedParams with offset := offset })
            UndocumentedItems.entities Item.entity? items undocumented.config.maxOffset
              (pageLimit undocumented.config undocumentedParams.limit) ∧
          PagesOf
            (fun offset => getUndocumented undocumented
              { undocumentedParams with offset := offset })
            UndocumentedItems.undocumentedColumns Item.column? items undocumented.config.maxOffset
              (pageLimit undocumented.config undocumentedParams.limit) := by
  refine ⟨?_, ?_, ?_, ?_, ?_, ?_⟩
  · intro ids h
    exact ⟨columnSearchList_reordered searchParams h, columnInventoryList_reordered columnParams h⟩
  · intro ids h
    exact indicatorInventoryList_reordered indicatorParams h
  · intro rows h
    exact searchColumns_pages h
  · intro rows h
    exact columnInventory_pages h
  · intro rows h
    exact indicatorInventory_pages h
  · intro items h
    exact getUndocumented_pages h

section TwoColumns

def twoColumns : StoreScan.EntityStore where
  ids := ["model.a"]
  ids_nodup := List.nodup_singleton _
  getArchived := fun _ => .ok (some { columnNames := ["id", "name"] })

/-- Only the first offset is accepted. -/
def firstPageOnly : ColumnRows.ManifestSearch ℚ where
  config := { defaultConfig with maxOffset := 0 }
  maxQueryLength := 100
  store := twoColumns
  tokenize := fun text => [text]
  toLowercase := id

def everyColumn : ColumnInventoryParams where
  resourceTypes := []
  roles := []
  semanticTypes := []
  annotatedOnly := false
  limit := some 1
  offset := 0

theorem firstPageOnly_list : ((columnInventoryList firstPageOnly everyColumn).toOption.map
    fun rows => rows.map ColumnInventoryRow.columnName) = some ["id", "name"] := by
  decide

/-- The second column is on no page. -/
theorem second_column_refused :
    ¬ ∀ (search : ColumnRows.ManifestSearch ℚ) (params : ColumnInventoryParams) rows,
      columnInventoryList search params = .ok rows → ∀ n,
        rows.length ≤ n * pageLimit search.config params.limit →
          (List.range n).flatMap (fun k => shownItems id (columnInventory search
            { params with offset := k * pageLimit search.config params.limit })) = rows := by
  intro h
  have hlist := firstPageOnly_list
  cases hrows : columnInventoryList firstPageOnly everyColumn with
  | error error =>
      rw [hrows] at hlist
      contradiction
  | ok rows =>
      rw [hrows] at hlist
      have hnames : rows.map ColumnInventoryRow.columnName = ["id", "name"] :=
        Option.some.inj hlist
      have hlength : rows.length = 2 := by
        have hcount := congrArg List.length hnames
        rwa [List.length_map] at hcount
      have hpages := h firstPageOnly everyColumn rows hrows 2 (by
        rw [hlength]
        decide)
      have hwhole := (columnInventory_pages hrows).whole 2
      have hfirst : (rows.take 1).length = rows.length := by
        rw [← List.filterMap_some (l := rows.take 1)]
        exact congrArg List.length (hwhole.symm.trans hpages)
      rw [List.length_take, hlength] at hfirst
      contradiction

end TwoColumns

end DbtNova.RowListings
