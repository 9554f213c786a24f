import DbtNova.EntityMeta
import DbtNova.Error
import DbtNova.SearchPages
import DbtNova.StableSort

/-!
# Scans over the entity store

The loops of `tools/search/columns.rs` and `tools/search/indicators.rs` go through the ids of the
entity store, collect the rows of each entity that its resource type lets through, and sort them.
The index of the store is a hash map, so the ids come in an arbitrary order. The deadline of a
scan is not reached here.
-/
namespace DbtNova.StoreScan

structure ArchivedNovaMeasure extends NovaMeasure where
  measureType : Option String := none
  canonical : Bool := false

structure ArchivedNovaMetric extends NovaMetric where
  template : Bool := false
  grain : Option NovaGrain := none
  canonical : Bool := false

structure ArchivedNovaMeta where
  synonyms : List String := []
  domains : List String := []
  useCases : List String := []
  canonical : Bool := false
  grain : Option NovaGrain := none
  measures : List ArchivedNovaMeasure := []
  metric : Option ArchivedNovaMetric := none
  metrics : List ArchivedNovaMetric := []

structure ArchivedColumnMetaSummary where
  name : String
  description : Option String := none
  role : Option String := none
  semanticType : Option String := none
  synonyms : List String := []
  exampleValues : List String := []
  primaryKey : Bool := false

structure ArchivedEntity where
  resourceType : Option String := none
  name : Option String := none
  relationName : Option String := none
  description : Option String := none
  columnNames : List String := []
  columnMeta : List ArchivedColumnMetaSummary := []
  novaMeta : Option ArchivedNovaMeta := none

structure EntityStore where
  /-- The keys of the index, in the order of its iteration -/
  ids : List String
  ids_nodup : ids.Nodup
  getArchived : String → Result (Option ArchivedEntity)

section Model
variable {ρ : Type*}

/-- What one round of a scan collects. -/
def entityRows (toLowercase : String → String) (resourceFilter : Option (List String))
    (rowsOf : String → ArchivedEntity → List ρ) (uniqueId : String) :
    Option ArchivedEntity → List ρ
  | none => []
  | some entity =>
      if SearchPages.resourceTypeAllowedForSearch toLowercase entity.resourceType
          resourceFilter then
        rowsOf uniqueId entity
      else []

def scanRows (store : EntityStore) (toLowercase : String → String)
    (resourceFilter : Option (List String)) (rowsOf : String → ArchivedEntity → List ρ) :
    Result (List ρ) :=
  store.ids.foldlM (fun rows uniqueId =>
    (store.getArchived uniqueId).map fun entity =>
      rows ++ entityRows toLowercase resourceFilter rowsOf uniqueId entity) []

/-- The tokens of a value that the query has, if there are any. -/
def tokenOverlapCount (tokenize : String → List String) (tokenSet : List String)
    (value : String) : Option ℕ :=
  let count := (tokenize value).countP fun token => tokenSet.contains token
  if 0 < count then some count else none

end Model

/-! ## Rows in another order -/

section Results
variable {ε α β : Type*} {x y : Except ε α} {f : α → β}

theorem map_eq_ok {b : β} : x.map f = .ok b ↔ ∃ a, x = .ok a ∧ f a = b := by
  cases x with
  | error e => simp [Except.map]
  | ok a => simp [Except.map]

theorem toOption_map : (x.map f).toOption = x.toOption.map f := by
  cases x with
  | error e => rfl
  | ok a => rfl

end Results

section Order
variable {ρ : Type*} {store : EntityStore} {toLowercase : String → String}
  {resourceFilter : Option (List String)} {rowsOf : String → ArchivedEntity → List ρ}

/-- The same store, iterated in another order. -/
def EntityStore.reordered (store : EntityStore) {ids : List String} (h : store.ids.Perm ids) :
    EntityStore where
  ids := ids
  ids_nodup := h.nodup_iff.mp store.ids_nodup
  getArchived := store.getArchived

/-- The rows of one id, or none where it cannot be read. -/
def rowsAt (store : EntityStore) (toLowercase : String → String)
    (resourceFilter : Option (List String)) (rowsOf : String → ArchivedEntity → List ρ)
    (uniqueId : String) : List ρ :=
  match store.getArchived uniqueId with
  | .error _ => []
  | .ok entity => entityRows toLowercase resourceFilter rowsOf uniqueId entity

def Readable (store : EntityStore) : Prop :=
  ∀ id ∈ store.ids, ∃ entity, store.getArchived id = .ok entity

theorem foldlM_rows (ids : List String) (found rows : List ρ) :
    ids.foldlM (fun rows uniqueId => (store.getArchived uniqueId).map fun entity =>
        rows ++ entityRows toLowercase resourceFilter rowsOf uniqueId entity) found = .ok rows ↔
      (∀ id ∈ ids, ∃ entity, store.getArchived id = .ok entity) ∧
        rows = found ++ ids.flatMap (rowsAt store toLowercase resourceFilter rowsOf) := by
  induction ids generalizing found with
  | nil =>
      rw [List.foldlM_nil, List.flatMap_nil, List.append_nil]
      constructor
      · intro h
        exact ⟨fun _ hid => absurd hid List.not_mem_nil, (Except.ok.inj h).symm⟩
      · intro h
        rw [h.2]
        rfl
  | cons id ids ih =>
      rw [List.foldlM_cons, List.forall_mem_cons, List.flatMap_cons]
      cases hentity : store.getArchived id with
      | error message =>
          constructor
          · intro h
            contradiction
          · intro h
            obtain ⟨⟨⟨entity, hok⟩, -⟩, -⟩ := h
            contradiction
      | ok entity =>
          have hrows : rowsAt store toLowercase resourceFilter rowsOf id =
              entityRows toLowercase resourceFilter rowsOf id entity := by
            unfold rowsAt
            rw [hentity]
          have hstep := ih (found ++ entityRows toLowercase resourceFilter rowsOf id entity)
          have hread : ∃ read, (Except.ok entity : Result (Option ArchivedEntity)) = .ok read :=
            ⟨entity, rfl⟩
          rw [hrows, ← List.append_assoc, and_iff_right hread]
          exact hstep

/-- A scan succeeds if every entity can be read, and has the rows of the ids in their order. -/
theorem scanRows_eq_ok {rows : List ρ} :
    scanRows store toLowercase resourceFilter rowsOf = .ok rows ↔
      Readable store ∧ rows = store.ids.flatMap (rowsAt store toLowercase resourceFilter rowsOf) :=
  foldlM_rows store.ids [] rows

theorem row_parent {parent : ρ → String}
    (hparent : ∀ id entity, ∀ row ∈ rowsOf id entity, parent row = id) {id : String} {row : ρ}
    (hrow : row ∈ rowsAt store toLowercase resourceFilter rowsOf id) : parent row = id := by
  unfold rowsAt at hrow
  split at hrow
  · exact absurd hrow List.not_mem_nil
  · unfold entityRows at hrow
    split at hrow
    · exact absurd hrow List.not_mem_nil
    · split at hrow
      · exact hparent id _ row hrow
      · exact absurd hrow List.not_mem_nil

/-- Of all the rows, those with this parent are the rows of its id. -/
theorem filter_parent {parent : ρ → String}
    (hparent : ∀ id entity, ∀ row ∈ rowsOf id entity, parent row = id) {id : String}
    (hid : id ∈ store.ids) :
    (store.ids.flatMap (rowsAt store toLowercase resourceFilter rowsOf)).filter
        (fun row => parent row == id) =
      rowsAt store toLowercase resourceFilter rowsOf id := by
  rw [List.filter_flatMap, StableSort.flatMap_eq_of_only store.ids_nodup hid]
  · apply List.filter_eq_self.mpr
    intro row hrow
    exact beq_iff_eq.mpr (row_parent hparent hrow)
  · intro other _ hother
    apply List.filter_eq_nil_iff.mpr
    intro row hrow hsame
    rw [row_parent hparent hrow] at hsame
    exact hother (beq_iff_eq.mp hsame)

/-- Where rows of two entities never tie, the sorted rows do not depend on the order of the
ids. -/
theorem sorted_scan_eq {cmp : ρ → ρ → Ordering} [Std.TransCmp cmp] (parent : ρ → String)
    (hparent : ∀ id entity, ∀ row ∈ rowsOf id entity, parent row = id)
    (hties : ∀ row row', cmp row row' = .eq → parent row = parent row') {ids : List String}
    (hperm : store.ids.Perm ids) :
    ((scanRows store toLowercase resourceFilter rowsOf).map (StableSort.sort cmp)).toOption =
      ((scanRows (store.reordered hperm) toLowercase resourceFilter rowsOf).map
        (StableSort.sort cmp)).toOption := by
  have hsort : StableSort.sort cmp
      (store.ids.flatMap (rowsAt store toLowercase resourceFilter rowsOf)) =
        StableSort.sort cmp (ids.flatMap (rowsAt store toLowercase resourceFilter rowsOf)) := by
    apply StableSort.sort_flatMap_eq hperm store.ids_nodup
    intro id _ id' _ row hmem row' hmem' heq
    rw [← row_parent hparent hmem, ← row_parent hparent hmem']
    exact (hties row row' heq).symm
  apply Option.ext
  intro rows
  rw [toOption_eq_some, toOption_eq_some]
  have hreadable : Readable (store.reordered hperm) ↔ Readable store := by
    unfold Readable
    exact forall_congr' fun id => imp_congr_left hperm.symm.mem_iff
  rw [map_eq_ok, map_eq_ok]
  simp only [scanRows_eq_ok, hreadable, and_assoc, exists_and_left, exists_eq_left]
  apply and_congr_right
  intro _
  rw [hsort]
  exact Iff.rfl

end Order

end DbtNova.StoreScan
