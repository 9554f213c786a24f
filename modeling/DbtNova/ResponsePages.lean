import DbtNova.ResponseSize
import DbtNova.Undocumented
import Mathlib.Logic.Relation

/-!
# The pages behind the offset of the next page

The offset of the next page is the offset of the request and the count of the response, and
the count is brought up to date behind the truncation. A list is cut behind its first items.
The two lists of `get_undocumented` are cut one by one, although one counter runs over both.
-/
namespace DbtNova.ResponsePages
open JsonValue ResponseBudget Undocumented

/-! ## Numbers that are read back -/

theorem asU64_ofNat {n : ℕ} (h : n < 2 ^ 64) : asU64 (ResponseBudget.ofNat n) = some n := by
  have hdigits : (toString n).toList = Nat.toDigits 10 n := Nat.toList_repr
  have hread : (Nat.toDigits 10 n).foldl (fun n c => 10 * n + (c.toNat - 48)) 0 = n :=
    Nat.ofDigitChars_ten_toDigits
  have hall : (Nat.toDigits 10 n).all Char.isDigit = true := by
    rw [List.all_eq_true]
    intro c hc
    exact Nat.isDigit_of_mem_toDigits (by omega) (by omega) hc
  unfold asU64 ResponseBudget.ofNat
  simp only [hdigits, hread]
  exact if_pos ⟨Nat.toDigits_ne_nil, hall, h⟩

theorem asU64_lt {value : JsonValue} {n : ℕ} (h : asU64 value = some n) : n < 2 ^ 64 := by
  cases value with
  | number text =>
      simp only [asU64, Option.ite_none_right_eq_some] at h
      obtain ⟨⟨-, -, hlt⟩, heq⟩ := h
      exact Option.some.inj heq ▸ hlt
  | _ => contradiction

theorem eq_of_asU64_ofNat {m n : ℕ} (h : asU64 (ResponseBudget.ofNat n) = some m) : m = n := by
  have hread : (Nat.toDigits 10 n).foldl (fun n c => 10 * n + (c.toNat - 48)) 0 = n :=
    Nat.ofDigitChars_ten_toDigits
  have hdigits : (toString n).toList = Nat.toDigits 10 n := Nat.toList_repr
  simp only [asU64, ResponseBudget.ofNat, Option.ite_none_right_eq_some] at h
  rw [hdigits, hread] at h
  exact (Option.some.inj h.2).symm

/-! ## What a truncation leaves of a list -/

/-- The value that some truncations leave of another. -/
def CutDown : JsonValue → JsonValue → Prop :=
  Relation.ReflTransGen fun value cut =>
    ∃ limits path, (truncateJsonForBudget limits path value).1 = cut

/-- The first items, each cut down. -/
def Kept (limit : ℕ) (items kept : List JsonValue) : Prop :=
  List.Forall₂ CutDown (items.take limit) kept

section Kept
variable {limits : Limits} {path : String} {items kept cut : List JsonValue} {m k : ℕ}

theorem truncateItems_kept (idx : ℕ) :
    Kept (limits.maxArrayItems - idx) items (truncateItems limits path idx items).1 := by
  unfold Kept
  induction items generalizing idx with
  | nil =>
      rw [List.take_nil, truncateItems]
      exact List.Forall₂.nil
  | cons item items ih =>
      rw [truncateItems]
      split
      · rename_i hfull
        rw [Nat.sub_eq_zero_of_le hfull, List.take_zero]
        exact List.Forall₂.nil
      · rename_i hroom
        have hnext : limits.maxArrayItems - idx = limits.maxArrayItems - (idx + 1) + 1 := by omega
        rw [hnext, List.take_succ_cons]
        exact List.Forall₂.cons (.single ⟨limits, _, rfl⟩) (ih (idx + 1))

theorem Kept.length (h : Kept m items kept) : kept.length = min m items.length := by
  rw [← List.Forall₂.length_eq h, List.length_take]

theorem forall₂_cutDown_trans (h : List.Forall₂ CutDown items kept)
    (hcut : List.Forall₂ CutDown kept cut) : List.Forall₂ CutDown items cut := by
  induction h generalizing cut with
  | nil => exact hcut
  | cons hitem _ ih =>
      cases hcut with
      | cons hkept hrest => exact List.Forall₂.cons (hitem.trans hkept) (ih hrest)

/-- A second cut that keeps no more than the first. -/
theorem Kept.trans (h : Kept m items kept) (hcut : Kept k kept cut) (hle : k ≤ m) :
    Kept k items cut := by
  have hfirst : List.Forall₂ CutDown ((items.take m).take k) (kept.take k) :=
    List.forall₂_take k h
  rw [List.take_take, min_eq_left hle] at hfirst
  exact forall₂_cutDown_trans hfirst hcut

end Kept

/-! ## Fields behind a truncation -/

section Fields
variable {limits : Limits} {path key : String} {keep : List String} {fields : Fields}

/-- The fields that a truncation leaves, without the paths. -/
def cutFields (limits : Limits) (path : String) (keep : List String) (fields : Fields) : Fields :=
  (truncateFields limits path keep fields).map fun entry => (entry.1, entry.2.1)

theorem cutFields_cons (hkey : key ∈ keep) (child : JsonValue) :
    cutFields limits path keep ((key, child) :: fields) =
      (key, (truncateField limits path (key, child)).2.1) :: cutFields limits path keep fields := by
  unfold cutFields
  rw [truncateFields, if_pos hkey]
  rfl

theorem keys_cutFields :
    (cutFields limits path keep fields).map Prod.fst = (fields.map Prod.fst).filter (· ∈ keep) := by
  unfold cutFields
  rw [List.map_map]
  exact truncateFields_keys

theorem lookup_cutFields (hkey : key ∈ keep) :
    (cutFields limits path keep fields).lookup key =
      (fields.lookup key).map fun child => (truncateField limits path (key, child)).2.1 := by
  induction fields with
  | nil => rfl
  | cons field fields ih =>
      obtain ⟨first, child⟩ := field
      by_cases hfirst : key = first
      · subst hfirst
        rw [cutFields_cons hkey, List.lookup_cons_self, List.lookup_cons_self, Option.map_some]
      · rw [lookup_cons_ne hfirst]
        by_cases hkeep : first ∈ keep
        · rw [cutFields_cons hkeep, lookup_cons_ne hfirst, ih]
        · have hdropped : cutFields limits path keep ((first, child) :: fields) =
              cutFields limits path keep fields := by
            unfold cutFields
            rw [truncateFields, if_neg hkeep]
          rw [hdropped, ih]

/-- An object that is not too large keeps all its keys, and so does the response itself. -/
theorem truncate_object (h : path = "$" ∨ fields.length ≤ limits.maxObjectEntries) :
    (truncateJsonForBudget limits path (.object fields)).1 =
      .object (cutFields limits path (fields.map Prod.fst) fields) := by
  have hprunes : ¬(path ≠ "$" ∧ limits.maxObjectEntries < fields.length) := by
    rintro ⟨hpath, hlong⟩
    cases h with
    | inl hroot => exact hpath hroot
    | inr hshort => omega
  unfold truncateJsonForBudget
  simp only [if_neg hprunes]
  rfl

theorem truncate_object_eq (limits : Limits) (path : String) (fields : Fields) :
    ∃ keep, (keep = fields.map Prod.fst ∨
        keep = keptKeys (fields.map Prod.fst) limits.maxObjectEntries) ∧
      (truncateJsonForBudget limits path (.object fields)).1 =
        .object (cutFields limits path keep fields) := by
  unfold truncateJsonForBudget
  dsimp only
  split
  · exact ⟨_, .inr rfl, rfl⟩
  · exact ⟨_, .inl rfl, rfl⟩

theorem mem_foldl_keep (keys : List String) {keep : List String} {maxObjectEntries : ℕ}
    (h : key ∈ keep) :
    key ∈ keys.foldl
      (fun keep key =>
        if maxObjectEntries ≤ keep.length ∨ key ∈ keep then keep else keep ++ [key]) keep := by
  induction keys generalizing keep with
  | nil => exact h
  | cons next keys ih =>
      rw [List.foldl_cons]
      apply ih
      split
      · exact h
      · exact List.mem_append_left _ h

/-- Where no key is an important one, the first key is kept. -/
theorem mem_keptKeys {keys : List String} {maxObjectEntries : ℕ} (hpos : 0 < maxObjectEntries)
    (h : ∀ important ∈ importantKeys, important ∉ key :: keys) :
    key ∈ keptKeys (key :: keys) maxObjectEntries := by
  have hnone : importantKeys.filter (· ∈ key :: keys) = [] := by
    rw [List.filter_eq_nil_iff]
    intro important himportant
    simpa using h important himportant
  have hfull : ¬(maxObjectEntries ≤ ([] : List String).length ∨ key ∈ ([] : List String)) := by
    simp only [List.length_nil, List.not_mem_nil, or_false]
    omega
  unfold keptKeys
  rw [hnone, List.take_nil, List.foldl_cons, if_neg hfull]
  exact mem_foldl_keep keys (List.mem_append_right _ List.mem_cons_self)

end Fields

/-! ## The payloads of the paged tools -/

/-- The keys beside the entities of a project's score. -/
def scoreKeys : List String :=
  ["grade", "limit", "offset", "overall_score", "persona", "quality_summary", "scope",
    "scoring_contract", "summary"]

def undocumentedSummaryKeys : List String :=
  ["columns_missing_docs", "columns_returned", "entities_missing_docs", "entities_returned",
    "items_returned"]

inductive Kind
  | list
  | score
  | undocumented
  deriving DecidableEq

/-- The data of a response with the items of its two lists. Most tools have one list; a score
has its entities in an object; `get_undocumented` has entities and columns. -/
inductive Payload : Kind → JsonValue → List JsonValue → List JsonValue → Prop
  | list (items : List JsonValue) : Payload .list (.array items) items []
  | score {items : List JsonValue} {rest : Fields}
      (hkeys : ∀ field ∈ rest, field.1 ∈ scoreKeys)
      (hsummary : ∀ summary, rest.lookup "summary" = some (.object summary) →
        ∀ key ∈ returnedKeys, key ∉ summary.map Prod.fst) :
      Payload .score (.object (("entities", .array items) :: rest)) items []
  | undocumented {columnsTruncated : JsonValue} {summary : Fields}
      {entities columns : List JsonValue}
      (hsummary : summary.map Prod.fst = undocumentedSummaryKeys) :
      Payload .undocumented (.object [("columns_truncated", columnsTruncated),
        ("entities", .array entities), ("summary", .object summary),
        ("undocumented_columns", .array columns)]) entities columns

section Payload
variable {limits : Limits} {path : String} {kind : Kind} {data : JsonValue}
  {entities columns : List JsonValue}

theorem truncate_array (limits : Limits) (path : String) (items : List JsonValue) :
    ∃ kept, (truncateJsonForBudget limits path (.array items)).1 = .array kept ∧
      Kept limits.maxArrayItems items kept := by
  refine ⟨_, by unfold truncateJsonForBudget; rfl, ?_⟩
  exact truncateItems_kept 0

/-- A child has limits of its own for texts only. -/
theorem truncateField_eq (limits : Limits) (path key : String) (child : JsonValue) :
    ∃ own path', own.maxArrayItems = limits.maxArrayItems ∧
      own.maxObjectEntries = limits.maxObjectEntries ∧
      (truncateField limits path (key, child)).2.1 = (truncateJsonForBudget own path' child).1 := by
  unfold truncateField
  refine ⟨_, _, ?_, ?_, rfl⟩
  · split <;> rfl
  · split <;> rfl

theorem truncateField_array (limits : Limits) (path key : String) (items : List JsonValue) :
    ∃ kept, (truncateField limits path (key, .array items)).2.1 = .array kept ∧
      Kept limits.maxArrayItems items kept := by
  obtain ⟨own, path', hitems, -, heq⟩ := truncateField_eq limits path key (.array items)
  rw [heq, ← hitems]
  exact truncate_array own path' items

theorem keys_cutFields_self {fields : Fields} :
    (cutFields limits path (fields.map Prod.fst) fields).map Prod.fst = fields.map Prod.fst := by
  rw [keys_cutFields, List.filter_eq_self]
  intro key hkey
  exact decide_eq_true hkey

/-- An object that a truncation leaves has no keys of its own. -/
theorem keys_of_truncateField {key : String} {child : JsonValue} {kept : Fields}
    (h : (truncateField limits path (key, child)).2.1 = .object kept) :
    ∃ fields, child = .object fields ∧ kept.map Prod.fst ⊆ fields.map Prod.fst := by
  unfold truncateField at h
  obtain ⟨fields, keep, hchild, hkept⟩ := truncateJson_object h
  refine ⟨fields, hchild, ?_⟩
  have hkeys : kept.map Prod.fst = (fields.map Prod.fst).filter (· ∈ keep) := by
    rw [hkept]
    exact keys_cutFields
  rw [hkeys]
  exact List.filter_subset_self _

/-- The summary of a score has no count of what is returned before the cut, so none behind. -/
theorem summary_cutFields {keep : List String} {rest : Fields}
    (h : ∀ summary, rest.lookup "summary" = some (.object summary) →
      ∀ key ∈ returnedKeys, key ∉ summary.map Prod.fst) :
    ∀ summary, (cutFields limits path keep rest).lookup "summary" = some (.object summary) →
      ∀ key ∈ returnedKeys, key ∉ summary.map Prod.fst := by
  intro summary hsummary key hreturned hkey
  have hkeep : "summary" ∈ keep := by
    have hmem := List.mem_map_of_mem (f := Prod.fst) (mem_of_lookup hsummary)
    rw [keys_cutFields] at hmem
    exact of_decide_eq_true (List.mem_filter.mp hmem).2
  rw [lookup_cutFields hkeep, Option.map_eq_some_iff] at hsummary
  obtain ⟨child, hchild, hcut⟩ := hsummary
  obtain ⟨fields, rfl, hsub⟩ := keys_of_truncateField hcut
  exact h fields hchild key hreturned (hsub hkey)

/-- A truncation keeps the payload of a tool, and the first items of each list. -/
theorem Payload.truncate (h : Payload kind data entities columns) (limits : Limits)
    (path : String) (hroom : 5 ≤ limits.maxObjectEntries) :
    ∃ entities' columns',
      Payload kind (truncateJsonForBudget limits path data).1 entities' columns' ∧
        Kept limits.maxArrayItems entities entities' ∧
        Kept limits.maxArrayItems columns columns' := by
  have hnil : Kept limits.maxArrayItems [] [] := by
    unfold Kept
    rw [List.take_nil]
    exact List.Forall₂.nil
  cases h with
  | list =>
      obtain ⟨kept, heq, hkept⟩ := truncate_array limits path entities
      rw [heq]
      exact ⟨kept, [], .list kept, hkept, hnil⟩
  | @score _ rest hkeys hsummary =>
      obtain ⟨keep, hkeep, htruncated⟩ := truncate_object_eq limits path
        (("entities", .array entities) :: rest)
      have hentities : "entities" ∈ keep := by
        cases hkeep with
        | inl hall =>
            rw [hall]
            exact List.mem_cons_self
        | inr hfirst =>
            have hplain : ∀ important ∈ importantKeys, important ∉ "entities" :: scoreKeys := by
              decide
            rw [hfirst]
            apply mem_keptKeys (by omega)
            intro important himportant hmem
            apply hplain important himportant
            cases List.mem_cons.mp hmem with
            | inl heq => exact heq ▸ List.mem_cons_self
            | inr hrest =>
                obtain ⟨field, hfield, heq⟩ := List.mem_map.mp hrest
                exact List.mem_cons_of_mem _ (heq ▸ hkeys field hfield)
      obtain ⟨kept, heq, hkept⟩ := truncateField_array limits path "entities" entities
      rw [htruncated, cutFields_cons hentities, heq]
      refine ⟨kept, [], .score ?_ (summary_cutFields hsummary), hkept, hnil⟩
      intro field hfield
      have hmem := List.mem_map_of_mem (f := Prod.fst) hfield
      rw [keys_cutFields] at hmem
      obtain ⟨old, hold, hfirst⟩ := List.mem_map.mp (List.mem_filter.mp hmem).1
      exact hfirst ▸ hkeys old hold
  | @undocumented columnsTruncated summary _ _ hsummary =>
      obtain ⟨kept, heq, hkept⟩ := truncateField_array limits path "entities" entities
      obtain ⟨keptColumns, heqColumns, hkeptColumns⟩ := truncateField_array limits path
        "undocumented_columns" columns
      have hlength : summary.length = 5 := by
        rw [← List.length_map (f := Prod.fst), hsummary]
        rfl
      obtain ⟨own, path', -, hentries, hcut⟩ := truncateField_eq limits path "summary"
        (.object summary)
      rw [truncate_object (.inr (by omega))] at hcut
      rw [truncate_object (.inr (by simpa using Nat.le_of_succ_le hroom))]
      simp only [List.map_cons, List.map_nil]
      rw [cutFields_cons (by simp), cutFields_cons (by simp), cutFields_cons (by simp),
        cutFields_cons (by simp), heq, heqColumns, hcut]
      exact ⟨kept, keptColumns, .undocumented (keys_cutFields_self.trans hsummary), hkept,
        hkeptColumns⟩

end Payload

/-! ## Three truncations of a response -/

/-- A response with the items of its lists and a count, not yet with metadata. -/
structure Response (kind : Kind) (count : ℕ) (fields : Fields) (entities columns : List JsonValue) :
    Prop where
  payload : ∃ data, fields.lookup "data" = some data ∧ Payload kind data entities columns
  count_eq : fields.lookup "count" = some (ResponseBudget.ofNat count)
  noMeta : fields.lookup metaKey = none

/-- The number of items that a list keeps: that of the first truncation behind which the
response fits, and of the last one where none does. -/
def arrayLimit (value : JsonValue) (config : BudgetConfig) : Option ℕ :=
  let budget := config.mcpMaxResponseBytes
  let first := (truncateJsonForBudget ⟨max config.mcpMaxStringChars 1, 50, 50⟩ "$" value).1
  let second := (truncateJsonForBudget ⟨1024, 20, 20⟩ "$" first).1
  if budget = 0 ∨ serializedLen value ≤ budget then none
  else if serializedLen first ≤ budget then some 50
  else if serializedLen second ≤ budget then some 20
  else some 5

section Response
variable {limits : Limits} {kind : Kind} {count : ℕ} {fields : Fields} {config : BudgetConfig}
  {entities columns : List JsonValue}

theorem lookup_cutFields_self {path key : String} :
    (cutFields limits path (fields.map Prod.fst) fields).lookup key =
      (fields.lookup key).map fun child => (truncateField limits path (key, child)).2.1 := by
  by_cases hkey : key ∈ fields.map Prod.fst
  · exact lookup_cutFields hkey
  · have hcut : key ∉ (cutFields limits path (fields.map Prod.fst) fields).map Prod.fst := by
      rw [keys_cutFields_self]
      exact hkey
    rw [lookup_eq_none hcut, lookup_eq_none hkey, Option.map_none]

theorem Response.truncate (h : Response kind count fields entities columns) (limits : Limits)
    (hroom : 5 ≤ limits.maxObjectEntries) :
    ∃ fields' entities' columns',
      (truncateJsonForBudget limits "$" (.object fields)).1 = .object fields' ∧
        Response kind count fields' entities' columns' ∧
        Kept limits.maxArrayItems entities entities' ∧
        Kept limits.maxArrayItems columns columns' := by
  obtain ⟨data, hdata, hpayload⟩ := h.payload
  obtain ⟨own, path', hitems, hentries, hcut⟩ := truncateField_eq limits "$" "data" data
  obtain ⟨entities', columns', hpayload', hfirst, hsecond⟩ :=
    hpayload.truncate own path' (by omega)
  rw [hitems] at hfirst hsecond
  refine ⟨_, entities', columns', truncate_object (.inl rfl), ⟨⟨_, ?_, hpayload'⟩, ?_, ?_⟩, hfirst,
    hsecond⟩
  · rw [lookup_cutFields_self, hdata, Option.map_some, hcut]
  · rw [lookup_cutFields_self, h.count_eq, Option.map_some]
    unfold truncateField ResponseBudget.ofNat truncateJsonForBudget
    rfl
  · rw [lookup_cutFields_self, h.noMeta, Option.map_none]

theorem truncateAgain_fits {state : JsonValue × List String} {budget : ℕ}
    (h : serializedLen state.1 ≤ budget) : truncateAgain budget limits state = state :=
  if_neg (Nat.not_lt.mpr h)

theorem truncateAgain_long {state : JsonValue × List String} {budget : ℕ}
    (h : ¬serializedLen state.1 ≤ budget) :
    (truncateAgain budget limits state).1 = (truncateJsonForBudget limits "$" state.1).1 := by
  unfold truncateAgain
  rw [if_pos (Nat.lt_of_not_le h)]

/-- Up to three truncations keep the first items of each list. -/
theorem Response.truncateThrice (h : Response kind count fields entities columns) {m : ℕ}
    (hlimit : arrayLimit (.object fields) config = some m) :
    m ≤ 50 ∧ ∃ fields' entities' columns',
      (ResponseBudget.truncateThrice (.object fields) config).1 = .object fields' ∧
        Response kind count fields' entities' columns' ∧ Kept m entities entities' ∧
        Kept m columns columns' := by
  obtain ⟨first, entities₁, columns₁, hfirst, hresponse₁, hentities₁, hcolumns₁⟩ :=
    h.truncate ⟨max config.mcpMaxStringChars 1, 50, 50⟩ (by simp)
  obtain ⟨second, entities₂, columns₂, hsecond, hresponse₂, hentities₂, hcolumns₂⟩ :=
    hresponse₁.truncate ⟨1024, 20, 20⟩ (by simp)
  obtain ⟨third, entities₃, columns₃, hthird, hresponse₃, hentities₃, hcolumns₃⟩ :=
    hresponse₂.truncate ⟨512, 5, 5⟩ (by simp)
  unfold arrayLimit at hlimit
  unfold ResponseBudget.truncateThrice
  dsimp only at hlimit hentities₁ hcolumns₁ hentities₂ hcolumns₂ hentities₃ hcolumns₃ ⊢
  generalize truncateJsonForBudget ⟨max config.mcpMaxStringChars 1, 50, 50⟩ "$" (.object fields) =
    state at hlimit hfirst ⊢
  rw [hfirst, hsecond] at hlimit
  split at hlimit
  · contradiction
  · split at hlimit
    · rename_i hfits
      cases hlimit
      rw [← hfirst] at hfits
      rw [truncateAgain_fits hfits, truncateAgain_fits hfits]
      exact ⟨le_refl _, first, entities₁, columns₁, hfirst, hresponse₁, hentities₁, hcolumns₁⟩
    · rename_i hlong
      rw [← hfirst] at hlong
      have hagain : (truncateAgain config.mcpMaxResponseBytes ⟨1024, 20, 20⟩ state).1 =
          .object second := by
        rw [truncateAgain_long hlong, hfirst, hsecond]
      have htwice := hentities₁.trans hentities₂ (by omega)
      have htwiceColumns := hcolumns₁.trans hcolumns₂ (by omega)
      split at hlimit
      · rename_i hfits
        cases hlimit
        rw [← hagain] at hfits
        rw [truncateAgain_fits hfits]
        exact ⟨by omega, second, entities₂, columns₂, hagain, hresponse₂, htwice, htwiceColumns⟩
      · rename_i hlong'
        cases hlimit
        rw [← hagain] at hlong'
        rw [truncateAgain_long hlong', hagain, hthird]
        exact ⟨by omega, third, entities₃, columns₃, rfl, hresponse₃,
          htwice.trans hentities₃ (by omega), htwiceColumns.trans hcolumns₃ (by omega)⟩

end Response

/-! ## The count behind the truncation -/

/-- Data that shows these items. -/
inductive Lists : JsonValue → List JsonValue → List JsonValue → Prop
  | list (items : List JsonValue) : Lists (.array items) items []
  | object {data : Fields} {entities columns : List JsonValue}
      (hrows : data.lookup "rows" = none)
      (hentities : data.lookup "entities" = some (.array entities))
      (hcolumns : ((data.lookup "undocumented_columns").bind asArray).getD [] = columns) :
      Lists (.object data) entities columns

/-- A response that counts the items that it shows. -/
structure Counted (value : JsonValue) (entities columns : List JsonValue) : Prop where
  lists : ∃ data, value.get "data" = some data ∧ Lists data entities columns
  count_eq : ∀ n, (value.get "count").bind asU64 = some n → n = entities.length + columns.length

section Counted
variable {kind : Kind} {count : ℕ} {fields data summary : Fields} {key : String}
  {entities columns : List JsonValue} {shape : ResponseShapeSnapshot}

theorem lookup_rest_eq_none {rest : Fields} (hkeys : ∀ field ∈ rest, field.1 ∈ scoreKeys)
    (hkey : key ∉ scoreKeys) : rest.lookup key = none := by
  apply lookup_eq_none
  intro hmem
  obtain ⟨field, hfield, rfl⟩ := List.mem_map.mp hmem
  exact hkey (hkeys field hfield)

theorem Payload.lists {data : JsonValue} (h : Payload kind data entities columns) :
    Lists data entities columns := by
  cases h with
  | list => exact .list entities
  | score hkeys _ =>
      refine .object ?_ List.lookup_cons_self ?_
      · rw [lookup_cons_ne (by decide), lookup_rest_eq_none hkeys (by decide)]
      · rw [lookup_cons_ne (by decide), lookup_rest_eq_none hkeys (by decide)]
        rfl
  | undocumented => exact .object rfl rfl rfl

theorem Response.counted
    (h : Response kind (entities.length + columns.length) fields entities columns) :
    Counted (.object fields) entities columns := by
  obtain ⟨data, hdata, hpayload⟩ := h.payload
  refine ⟨⟨data, hdata, hpayload.lists⟩, fun n hn => ?_⟩
  unfold JsonValue.get asObject at hn
  rw [Option.bind_some, h.count_eq] at hn
  exact eq_of_asU64_ofNat hn

theorem Lists.mark (h : Lists (.object data) entities columns) (value : JsonValue) :
    Lists (.object (putField "truncated" value data)) entities columns := by
  cases h with
  | object hrows hentities hcolumns =>
      refine .object ?_ ?_ ?_
      · rw [lookup_putField_ne (by decide), hrows]
      · rw [lookup_putField_ne (by decide), hentities]
      · rw [lookup_putField_ne (by decide), hcolumns]

/-! ### One list after the other -/

theorem noteArray_none {countField : Option String} {isCounted : Bool} {state : Normalized}
    (key : String) (h : state.data.lookup key = none) :
    noteArray shape key countField isCounted state = state := by
  unfold noteArray
  rw [h]
  rfl

def otherListKeys : List String :=
  ["rows", "found_count", "lineage", "not_found", "edges", "references", "columns"]

/-- Only the entities are counted before the summary. -/
theorem normalizeData_eq (hnone : ∀ key ∈ otherListKeys, data.lookup key = none)
    (hentities : data.lookup "entities" = some (.array entities)) :
    normalizeData shape data = noteSummary
      { data := data
        topCount :=
          if (shape.originalDataArrayLen "entities").any (fun n => shape.count == some n) then
            some entities.length
          else none
        dataTruncated :=
          (shape.originalDataArrayLen "entities").any fun n =>
            decide (entities.length < n) } := by
  have hrows : noteRows shape ⟨data, none, false⟩ = ⟨data, none, false⟩ := by
    unfold noteRows
    dsimp only
    rw [hnone "rows" (by decide)]
    rfl
  have hfound : updateDataReturnedCount data "found_count" entities.length = data := by
    unfold updateDataReturnedCount putExisting
    rw [hnone "found_count" (by decide)]
    rfl
  have hentitiesNoted : noteArray shape "entities" (some "found_count") true ⟨data, none, false⟩ =
      { data := data
        topCount :=
          if (shape.originalDataArrayLen "entities").any (fun n => shape.count == some n) then
            some entities.length
          else none
        dataTruncated :=
          (shape.originalDataArrayLen "entities").any fun n =>
            decide (entities.length < n) } := by
    have hlen : arrayLen (some (.array entities)) = some entities.length := rfl
    unfold noteArray
    dsimp only
    rw [hentities, hlen]
    simp only [Option.elim_some, hfound, Bool.true_and, Bool.false_or]
  have hcolumns : ∀ state : Normalized, state.data = data → noteColumns shape state = state := by
    intro state hstate
    unfold noteColumns
    rw [hstate, hnone "rows" (by decide)]
    exact noteArray_none "columns" (hstate ▸ hnone "columns" (by decide))
  unfold normalizeData
  dsimp only
  rw [hrows, hentitiesNoted, noteArray_none "lineage" (hnone "lineage" (by decide)),
    noteArray_none "not_found" (hnone "not_found" (by decide)),
    noteArray_none "edges" (hnone "edges" (by decide)),
    noteArray_none "references" (hnone "references" (by decide)), hcolumns _ rfl]

theorem keys_putExisting (value : JsonValue) :
    (putExisting key value fields).map Prod.fst = fields.map Prod.fst := by
  unfold putExisting
  split
  · rename_i hsome
    rw [putField_of_isSome hsome, keys_setField]
  · rfl

theorem lookup_putExisting (hkey : key ∈ fields.map Prod.fst) (value : JsonValue) :
    (putExisting key value fields).lookup key = some value := by
  unfold putExisting
  rw [if_pos (lookup_isSome hkey)]
  exact lookup_putField

theorem keys_putReturned (returned : Option ℕ) :
    (putReturned key returned summary).map Prod.fst = summary.map Prod.fst := by
  cases returned with
  | none => rfl
  | some returned => exact keys_putExisting _

/-- The summary of `get_undocumented` counts both lists together. -/
theorem normalizeUndocumentedSummary_eq (columnsTruncated : JsonValue)
    (hsummary : summary.map Prod.fst = undocumentedSummaryKeys)
    (hsmall : entities.length + columns.length < 2 ^ 64) :
    ∃ summary', normalizeUndocumentedSummary [("columns_truncated", columnsTruncated),
          ("entities", .array entities), ("summary", .object summary),
          ("undocumented_columns", .array columns)] =
        some [("columns_truncated", columnsTruncated), ("entities", .array entities),
          ("summary", .object summary'), ("undocumented_columns", .array columns)] ∧
      summary'.lookup "items_returned" =
        some (ResponseBudget.ofNat (entities.length + columns.length)) := by
  have hreturned : hasReturnedKey summary = true := by
    have hkey : "entities_returned" ∈ summary.map Prod.fst := by
      rw [hsummary]
      decide
    unfold hasReturnedKey returnedKeys
    rw [List.any_cons, lookup_isSome hkey, Bool.true_or]
  have hsum : BoundedCollect.saturatingAdd entities.length columns.length =
      entities.length + columns.length := by
    unfold BoundedCollect.saturatingAdd
    omega
  have hkeys : ∀ a b : Option ℕ, "items_returned" ∈
      (putReturned "columns_returned" a (putReturned "entities_returned" b summary)).map
        Prod.fst := by
    intro a b
    rw [keys_putReturned, keys_putReturned, hsummary]
    decide
  have hfound : List.lookup "summary" [("columns_truncated", columnsTruncated),
      ("entities", .array entities), ("summary", .object summary),
      ("undocumented_columns", .array columns)] = some (.object summary) := rfl
  refine ⟨_, ?_, lookup_putExisting (hkeys (some columns.length) (some entities.length)) _⟩
  unfold normalizeUndocumentedSummary
  rw [hfound, Option.bind_some]
  simp only [asObject]
  rw [if_pos hreturned]
  have hentities : arrayLen (List.lookup "entities" [("columns_truncated", columnsTruncated),
      ("entities", .array entities), ("summary", .object summary),
      ("undocumented_columns", .array columns)]) = some entities.length := rfl
  have hcolumns : arrayLen (List.lookup "undocumented_columns"
      [("columns_truncated", columnsTruncated), ("entities", .array entities),
        ("summary", .object summary), ("undocumented_columns", .array columns)]) =
      some columns.length := rfl
  rw [hentities, hcolumns, Option.getD_some, Option.getD_some, hsum]
  rfl

/-- What the normalization of the data finds. -/
structure Noted (state : Normalized) (count : ℕ) (entities columns : List JsonValue) : Prop where
  lists : Lists (.object state.data) entities columns
  topCount_eq : state.topCount = some (entities.length + columns.length) ∨
    state.topCount = none ∧ asU64 (ResponseBudget.ofNat count) = none

theorem Payload.noted (h : Payload kind (.object data) entities columns)
    (hcount : shape.count = asU64 (ResponseBudget.ofNat count))
    (hscore : kind = .score → shape.originalDataArrayLen "entities" = some count)
    (hsmall : entities.length + columns.length < 2 ^ 64) :
    Noted (normalizeData shape data) count entities columns := by
  have hlists := h.lists
  cases h with
  | @score _ rest hkeys hsummary =>
      have hnone : ∀ key ∈ otherListKeys,
          List.lookup key (("entities", JsonValue.array entities) :: rest) = none := by
        intro key hkey
        have hne : ∀ key ∈ otherListKeys, key ≠ "entities" ∧ key ∉ scoreKeys := by decide
        rw [lookup_cons_ne (hne key hkey).1, lookup_rest_eq_none hkeys (hne key hkey).2]
      have hplain : normalizeUndocumentedSummary (("entities", .array entities) :: rest) = none := by
        unfold normalizeUndocumentedSummary
        rw [lookup_cons_ne (by decide)]
        cases hfound : rest.lookup "summary" with
        | none => rfl
        | some child =>
            cases child with
            | object summary =>
                have hreturned : hasReturnedKey summary = false := by
                  unfold hasReturnedKey
                  rw [List.any_eq_false]
                  intro key hkey
                  rw [lookup_eq_none (hsummary summary hfound key hkey)]
                  exact Bool.false_ne_true
                simp only [Option.bind_some, asObject, hreturned, Bool.false_eq_true, if_false]
            | _ => rfl
      rw [normalizeData_eq hnone List.lookup_cons_self]
      unfold noteSummary
      simp only [hplain]
      refine ⟨hlists, ?_⟩
      rw [hscore rfl, hcount]
      cases hread : asU64 (ResponseBudget.ofNat count) with
      | none => exact .inr ⟨rfl, rfl⟩
      | some n =>
          rw [eq_of_asU64_ofNat hread]
          simp
  | @undocumented columnsTruncated summary _ _ hsummary =>
      obtain ⟨summary', hnormalized, hitems⟩ := normalizeUndocumentedSummary_eq
        columnsTruncated hsummary hsmall
      have hnone : ∀ key ∈ otherListKeys, List.lookup key [("columns_truncated", columnsTruncated),
          ("entities", .array entities), ("summary", .object summary),
          ("undocumented_columns", .array columns)] = none := by
        intro key hkey
        have hne : ∀ key ∈ otherListKeys, key ≠ "columns_truncated" ∧ key ≠ "entities" ∧
            key ≠ "summary" ∧ key ≠ "undocumented_columns" := by decide
        obtain ⟨h₁, h₂, h₃, h₄⟩ := hne key hkey
        rw [lookup_cons_ne h₁, lookup_cons_ne h₂, lookup_cons_ne h₃, lookup_cons_ne h₄]
        rfl
      rw [normalizeData_eq hnone rfl]
      unfold noteSummary
      simp only [hnormalized]
      refine ⟨.object rfl rfl rfl, .inl ?_⟩
      have hfound : List.lookup "summary" [("columns_truncated", columnsTruncated),
          ("entities", .array entities), ("summary", .object summary'),
          ("undocumented_columns", .array columns)] = some (.object summary') := rfl
      dsimp only
      rw [hfound, Option.bind_some]
      unfold JsonValue.get asObject
      rw [Option.bind_some, hitems, Option.bind_some, asU64_ofNat hsmall]

theorem lookup_normalizeCount (returned : ℕ) (original : Option ℕ) (hcount : key ≠ "count")
    (htruncated : key ≠ "truncated") :
    (normalizeBudgetedCount fields returned original).lookup key = fields.lookup key := by
  have hcounted : (if ((fields.lookup "count").bind asU64).any (· != returned) then
      putField "count" (ResponseBudget.ofNat returned) fields else fields).lookup key =
        fields.lookup key := by
    split
    · exact lookup_putField_ne hcount
    · rfl
  unfold normalizeBudgetedCount
  dsimp only
  split
  · rw [lookup_putField_ne htruncated, hcounted]
  · exact hcounted

/-- A count that can be read is the count of what is returned. -/
theorem count_normalizeCount {returned n : ℕ} (original : Option ℕ)
    (h : ((normalizeBudgetedCount fields returned original).lookup "count").bind asU64 = some n) :
    n = returned := by
  have hcounted : (normalizeBudgetedCount fields returned original).lookup "count" =
      (if ((fields.lookup "count").bind asU64).any (· != returned) then
        putField "count" (ResponseBudget.ofNat returned) fields else fields).lookup "count" := by
    unfold normalizeBudgetedCount
    dsimp only
    split
    · exact lookup_putField_ne (by decide)
    · rfl
  rw [hcounted] at h
  split at h
  · rw [lookup_putField] at h
    exact eq_of_asU64_ofNat h
  · rename_i hsame
    rw [h, Option.any_some, bne_iff_ne, not_not] at hsame
    exact hsame

/-- The response is brought back into shape with the count of what it shows. -/
theorem Response.normalize (h : Response kind count fields entities columns)
    (hcount : shape.count = asU64 (ResponseBudget.ofNat count))
    (hscore : kind = .score → shape.originalDataArrayLen "entities" = some count)
    (hsmall : entities.length + columns.length < 2 ^ 64) (budgetTruncated : Bool) :
    ∃ fields', normalizeBudgetedResponseShape (.object fields) shape budgetTruncated =
        .object fields' ∧
      Counted (.object fields') entities columns ∧ fields'.lookup metaKey = none := by
  obtain ⟨data, hdata, hpayload⟩ := h.payload
  have hobj : ∀ key ≠ "truncated", (if budgetTruncated then
      putField "truncated" (.bool true) fields else fields).lookup key = fields.lookup key := by
    intro key hkey
    split
    · exact lookup_putField_ne hkey
    · rfl
  have hdataObj := (hobj "data" (by decide)).trans hdata
  have hcountObj := (hobj "count" (by decide)).trans h.count_eq
  have hmetaObj := (hobj metaKey (by decide)).trans h.noMeta
  unfold normalizeBudgetedResponseShape
  dsimp only
  generalize (if budgetTruncated then putField "truncated" (.bool true) fields else fields) = obj
    at hdataObj hcountObj hmetaObj
  rw [hdataObj]
  have hlists := hpayload.lists
  cases hlists with
  | list =>
      refine ⟨_, rfl, ⟨⟨_, ?_, .list entities⟩, fun n hn => ?_⟩, ?_⟩
      · unfold JsonValue.get asObject
        rw [Option.bind_some, lookup_normalizeCount _ _ (by decide) (by decide), hdataObj]
      · exact count_normalizeCount _ hn
      · rw [lookup_normalizeCount _ _ (by decide) (by decide), hmetaObj]
  | @object data _ _ hrows hentities hcolumns =>
      have hnoted := hpayload.noted hcount hscore hsmall
      dsimp only
      generalize normalizeData shape data = state at hnoted
      have hmarked : Lists (.object (if state.dataTruncated || budgetTruncated then
          putField "truncated" (.bool true) state.data else state.data)) entities columns := by
        split
        · exact hnoted.lists.mark _
        · exact hnoted.lists
      generalize (if state.dataTruncated || budgetTruncated then
        putField "truncated" (.bool true) state.data else state.data) = marked at hmarked
      have hplaced : (setField "data" (.object marked) obj).lookup "data" =
          some (.object marked) := lookup_setField (hdataObj ▸ rfl)
      cases hnoted.topCount_eq with
      | inl htop =>
          rw [htop]
          refine ⟨_, rfl, ⟨⟨_, ?_, hmarked⟩, fun n hn => ?_⟩, ?_⟩
          · unfold JsonValue.get asObject
            rw [Option.bind_some, lookup_normalizeCount _ _ (by decide) (by decide), hplaced]
          · exact count_normalizeCount _ hn
          · rw [lookup_normalizeCount _ _ (by decide) (by decide),
              lookup_setField_ne (by decide), hmetaObj]
      | inr hlarge =>
          rw [hlarge.1]
          refine ⟨_, rfl, ⟨⟨_, hplaced, hmarked⟩, fun n hn => ?_⟩, ?_⟩
          · unfold JsonValue.get asObject at hn
            rw [Option.bind_some, lookup_setField_ne (by decide), hcountObj, Option.bind_some,
              hlarge.2] at hn
            contradiction
          · rw [lookup_setField_ne (by decide), hmetaObj]

theorem Response.capture (h : Response kind count fields entities columns) :
    (ResponseShapeSnapshot.capture (.object fields)).count =
        asU64 (ResponseBudget.ofNat count) ∧
      (kind = .score → (ResponseShapeSnapshot.capture (.object fields)).originalDataArrayLen
        "entities" = some entities.length) := by
  obtain ⟨data, hdata, hpayload⟩ := h.payload
  constructor
  · unfold ResponseShapeSnapshot.capture JsonValue.get asObject
    rw [Option.bind_some, h.count_eq, Option.bind_some]
  · rintro rfl
    cases hpayload with
    | score hkeys _ =>
        unfold ResponseShapeSnapshot.originalDataArrayLen ResponseShapeSnapshot.capture
          JsonValue.get asObject
        dsimp only
        rw [Option.bind_some, hdata]
        rfl

/-- A response that is too long is cut to a response that counts what it shows. -/
theorem Response.shrunk {config : BudgetConfig} {m : ℕ}
    (h : Response kind (entities.length + columns.length) fields entities columns)
    (hlimit : arrayLimit (.object fields) config = some m) :
    ∃ fields' entities' columns',
      ResponseBudget.shrunk (.object fields) config = .object fields' ∧
        Counted (.object fields') entities' columns' ∧ fields'.lookup metaKey = none ∧
        Kept m entities entities' ∧ Kept m columns columns' := by
  obtain ⟨hm, cut, entities', columns', htruncated, hresponse, hentities, hcolumns⟩ :=
    h.truncateThrice hlimit
  obtain ⟨hcount, hscore⟩ := h.capture
  have hscore' : kind = .score → (ResponseShapeSnapshot.capture
      (.object fields)).originalDataArrayLen "entities" =
        some (entities.length + columns.length) := by
    rintro rfl
    obtain ⟨data, hdata, hpayload⟩ := h.payload
    cases hpayload with
    | score _ _ => exact hscore rfl
  have hsmall : entities'.length + columns'.length < 2 ^ 64 := by
    rw [hentities.length, hcolumns.length]
    omega
  unfold ResponseBudget.shrunk
  dsimp only
  rw [htruncated]
  obtain ⟨fields', heq, hcounted, hmeta⟩ := hresponse.normalize hcount hscore' hsmall
    (!(ResponseBudget.truncateThrice (.object fields) config).2.isEmpty)
  exact ⟨fields', entities', columns', heq, hcounted, hmeta, hentities, hcolumns⟩

end Counted

/-! ## The metadata -/

/-- The offset of the next page that the metadata notes. -/
def notedOffset (value : JsonValue) : Option JsonValue :=
  (resultMetaOf value).bind (List.lookup "next_offset")

def carriedNextOffset (value : JsonValue) : Option ℕ := (notedOffset value).bind asU64

/-- The same response but for the metadata. -/
def SameBody (value other : JsonValue) : Prop := ∀ key ≠ metaKey, other.get key = value.get key

section Metadata
variable {value other : JsonValue} {fields metadata : Fields} {key : String} {n budget next : ℕ}
  {config : BudgetConfig} {entities columns : List JsonValue} {paths : List String}
  {originalCount : Option ℕ}

theorem SameBody.refl (value : JsonValue) : SameBody value value := fun _ _ => rfl

theorem SameBody.trans {third : JsonValue} (h : SameBody value other)
    (hthird : SameBody other third) : SameBody value third :=
  fun key hkey => (hthird key hkey).trans (h key hkey)

theorem sameBody_setMeta : SameBody value (setMeta metadata value) := by
  intro key hkey
  cases value with
  | object fields => exact lookup_putField_ne hkey
  | _ => rfl

theorem putInMeta_none (h : resultMetaOf value = none) (key : String) (child : JsonValue) :
    putInMeta key child value = value := by
  cases value with
  | object fields =>
      have hnone : (fields.lookup metaKey).bind asObject = none := h
      unfold putInMeta
      simp only [hnone]
  | _ => rfl

theorem sameBody_putInMeta (key : String) (child : JsonValue) :
    SameBody value (putInMeta key child value) := by
  cases hmeta : resultMetaOf value with
  | none =>
      rw [putInMeta_none hmeta]
      exact SameBody.refl value
  | some metadata =>
      rw [putInMeta_eq hmeta]
      exact sameBody_setMeta

theorem notedOffset_setMeta (h : value.asObject.isSome = true) :
    notedOffset (setMeta metadata value) = metadata.lookup "next_offset" := by
  unfold notedOffset
  rw [resultMetaOf_setMeta h, Option.bind_some]

theorem notedOffset_putInMeta (hkey : "next_offset" ≠ key) (child : JsonValue) :
    notedOffset (putInMeta key child value) = notedOffset value := by
  cases hmeta : resultMetaOf value with
  | none => rw [putInMeta_none hmeta]
  | some metadata =>
      rw [putInMeta_eq hmeta, notedOffset_setMeta (asObject_isSome hmeta),
        lookup_putField_ne hkey]
      unfold notedOffset
      rw [hmeta, Option.bind_some]

theorem resultMeta_next_offset :
    (resultMeta n budget true paths originalCount).lookup "next_offset" = none := by
  rw [resultMeta_eq]
  cases originalCount with
  | none => rfl
  | some count => rfl

/-- What the budget step adds to a response: metadata without an offset. -/
structure Quiet (value other : JsonValue) : Prop where
  sameBody : SameBody value other
  offset : notedOffset other = none

theorem Quiet.putInMeta (h : Quiet value other) (hkey : "next_offset" ≠ key) (child : JsonValue) :
    Quiet value (putInMeta key child other) :=
  ⟨h.sameBody.trans (sameBody_putInMeta key child),
    (notedOffset_putInMeta hkey child).trans h.offset⟩

theorem quiet_attach : Quiet (.object fields)
    (attachResultMeta (.object fields) n budget true paths originalCount) := by
  rw [attachResultMeta_eq]
  exact ⟨sameBody_setMeta, (notedOffset_setMeta rfl).trans resultMeta_next_offset⟩

theorem Quiet.trimPaths (h : Quiet value other) :
    Quiet value (trimResultMetaPathsForBudget other budget) := by
  unfold trimResultMetaPathsForBudget
  split
  · exact h
  · exact h.putInMeta (by decide) _

theorem quiet_self (h : fields.lookup metaKey = none) :
    Quiet (.object fields) (.object fields) := by
  refine ⟨SameBody.refl _, ?_⟩
  unfold notedOffset resultMetaOf JsonValue.get asObject
  rw [Option.bind_some, h]
  rfl

/-- A response without a count, or with none, notes no offset. -/
structure Silent (value : JsonValue) : Prop where
  offset : notedOffset value = none
  count_eq : ∀ n, (value.get "count").bind asU64 = some n → n = 0

theorem Quiet.silent (h : Quiet value other)
    (hcount : value.get "count" = some (ResponseBudget.ofNat 0)) : Silent other := by
  refine ⟨h.offset, fun n hn => ?_⟩
  rw [h.sameBody "count" (by decide), hcount] at hn
  exact eq_of_asU64_ofNat hn

theorem silent_trim (h : Quiet value other)
    (hcount : value.get "count" = some (ResponseBudget.ofNat 0)) :
    Silent (updateResultMetaResponseBytes (trimResultMetaForBudget other budget)) := by
  have htrimmed : Quiet value (trimResultMetaPathsForBudget other budget) := h.trimPaths
  unfold trimResultMetaForBudget updateResultMetaResponseBytes
  dsimp only
  generalize trimResultMetaPathsForBudget other budget = trimmed at htrimmed
  split
  · exact (htrimmed.putInMeta (by decide) _).silent hcount
  · cases trimmed with
    | object fields =>
        have hkept : notedOffset (.object (fields.filter fun field => decide (field.1 = metaKey))) =
            none := by
          have hoffset := htrimmed.offset
          unfold notedOffset resultMetaOf JsonValue.get asObject at hoffset ⊢
          rw [Option.bind_some] at hoffset ⊢
          rw [lookup_filter_key, hoffset]
        have hcount : JsonValue.get (.object (fields.filter fun field =>
            decide (field.1 = metaKey))) "count" = none := by
          apply lookup_eq_none
          intro hmem
          obtain ⟨field, hfield, heq⟩ := List.mem_map.mp hmem
          have hmeta := of_decide_eq_true (List.mem_filter.mp hfield).2
          exact absurd (hmeta.symm.trans heq) (by decide)
        dsimp only
        refine ⟨(notedOffset_putInMeta (by decide) _).trans hkept, fun n hn => ?_⟩
        rw [sameBody_putInMeta _ _ "count" (by decide), hcount] at hn
        contradiction
    | _ => exact (htrimmed.putInMeta (by decide) _).silent hcount

/-! ## The stub -/

/-- The stub of a response with lists counts nothing. -/
theorem Counted.stub (h : Counted (.object fields) entities columns) :
    (compactTruncatedResponse (.object fields)).get "count" =
      some (ResponseBudget.ofNat 0) := by
  obtain ⟨data, hdata, hlists⟩ := h.lists
  have hget : fields.lookup "data" = some data := hdata
  have hput : ∀ (child : JsonValue) (obj : Fields), (putField "truncated" (.bool true)
      (putField "data" child (putField "count" (ResponseBudget.ofNat 0) obj))).lookup "count" =
        some (ResponseBudget.ofNat 0) := by
    intro child obj
    rw [lookup_putField_ne (by decide), lookup_putField_ne (by decide), lookup_putField]
  unfold compactTruncatedResponse compactFields JsonValue.get asObject
  rw [Option.bind_some]
  unfold compactData
  dsimp only
  rw [hget]
  cases hlists with
  | list => exact hput _ _
  | @object data _ _ hrows hentities _ =>
      have hcollection : dataContainsCollectionPayload data = true := by
        have harray : isArrayField data "entities" = true := by
          unfold isArrayField
          rw [hentities]
          rfl
        unfold dataContainsCollectionPayload
        rw [List.any_eq_true]
        exact ⟨("entities", some "found_count"), by simp [mcpBudgetableDataArrayFields], harray⟩
      dsimp only
      rw [hrows, if_neg (by simp), if_pos hcollection]
      exact hput _ _

/-- The budget step leaves the body of what fits, and a stub counts nothing. -/
theorem finalize_cases (h : Counted (.object fields) entities columns)
    (hmeta : fields.lookup metaKey = none) (budget : ℕ) (includeMeta : Bool)
    (paths : List String) (originalCount : Option ℕ) :
    Quiet (.object fields)
        (finalizeMcpBudgetedResponse (.object fields) budget includeMeta paths originalCount) ∨
      Silent
        (finalizeMcpBudgetedResponse (.object fields) budget includeMeta paths originalCount) := by
  unfold finalizeMcpBudgetedResponse
  dsimp only
  split
  · left
    split
    · split
      · exact quiet_attach.trimPaths.putInMeta (by decide) _
      · exact quiet_self hmeta
    · exact quiet_self hmeta
  · right
    split
    · exact silent_trim quiet_attach h.stub
    · exact (quiet_self (lookup_eq_none (plain_stub _).fresh)).silent h.stub

/-! ## The offset -/

theorem lookup_removeKey_self : (removeKey key fields).lookup key = none := by
  apply lookup_eq_none
  intro hmem
  obtain ⟨field, hfield, heq⟩ := List.mem_map.mp hmem
  exact of_decide_eq_true (List.mem_filter.mp hfield).2 heq

theorem notedMeta_next {marks truncated : Bool} :
    (notedMeta next marks truncated metadata).lookup "next_offset" =
      some (ResponseBudget.ofNat next) := by
  unfold notedMeta
  dsimp only
  split
  · rw [lookup_orInsert_ne (by decide), lookup_putField]
  · exact lookup_putField

/-- An offset is that of the request and the count of the response. -/
theorem nextOffset_eq_some {pagination : PaginationParams}
    (h : nextOffset value (some pagination) = some next) :
    ∃ count, (value.get "count").bind asU64 = some count ∧ 0 < count ∧
      next = pagination.offset + count := by
  unfold nextOffset at h
  obtain ⟨found, hfound, h⟩ := Option.bind_eq_some_iff.mp h
  obtain ⟨total, htotal, h⟩ := Option.bind_eq_some_iff.mp h
  obtain ⟨count, hcount, h⟩ := Option.bind_eq_some_iff.mp h
  cases hfound
  dsimp only at h
  split at h
  · contradiction
  · rename_i hmore
    rw [not_or, not_le] at hmore
    obtain ⟨hpos, hlt⟩ := hmore
    have hword : total < 2 ^ 64 := by
      obtain ⟨child, -, hchild⟩ := Option.bind_eq_some_iff.mp htotal
      exact asU64_lt hchild
    unfold BoundedCollect.saturatingAdd at h hlt
    have hnext := Option.some.inj h
    exact ⟨count, hcount, Nat.pos_of_ne_zero hpos, by omega⟩

theorem sameBody_removeMeta : SameBody value (removeMeta value) := by
  intro key hkey
  cases value with
  | object fields => exact lookup_removeKey_ne hkey
  | _ => rfl

theorem sameBody_removeNextOffset : SameBody value (removeNextOffset value) := by
  unfold removeNextOffset
  split
  · exact sameBody_setMeta
  · exact SameBody.refl value

theorem notedOffset_removeMeta : notedOffset (removeMeta value) = none := by
  cases value with
  | object fields =>
      unfold notedOffset resultMetaOf JsonValue.get removeMeta asObject
      rw [Option.bind_some, lookup_removeKey_self]
      rfl
  | _ => rfl

theorem notedOffset_removeNextOffset : notedOffset (removeNextOffset value) = none := by
  unfold removeNextOffset
  split
  · rename_i metadata hmeta
    rw [notedOffset_setMeta (asObject_isSome hmeta), lookup_removeKey_self]
  · rename_i hnone
    unfold notedOffset
    rw [hnone]
    rfl

theorem refreshMeta_offset :
    SameBody value (refreshMeta value budget next metadata) ∧
      ∀ child, notedOffset (refreshMeta value budget next metadata) = some child →
        child = ResponseBudget.ofNat next := by
  unfold refreshMeta updateResultMetaResponseBytes
  dsimp only
  split
  · refine ⟨((sameBody_setMeta.trans (sameBody_putInMeta _ _)).trans
      sameBody_removeNextOffset).trans (sameBody_putInMeta _ _), fun child hchild => ?_⟩
    rw [notedOffset_putInMeta (by decide), notedOffset_removeNextOffset] at hchild
    contradiction
  · refine ⟨sameBody_setMeta.trans (sameBody_putInMeta _ _), fun child hchild => ?_⟩
    rw [notedOffset_putInMeta (by decide)] at hchild
    cases value with
    | object fields =>
        rw [notedOffset_setMeta rfl, notedMeta_next] at hchild
        exact (Option.some.inj hchild).symm
    | _ => contradiction

theorem addMeta_offset :
    SameBody value (addMeta value config next) ∧
      ∀ child, notedOffset (addMeta value config next) = some child →
        child = ResponseBudget.ofNat next := by
  unfold addMeta
  dsimp only
  split
  · refine ⟨sameBody_setMeta.trans sameBody_removeMeta, fun child hchild => ?_⟩
    rw [notedOffset_removeMeta] at hchild
    contradiction
  · refine ⟨sameBody_setMeta, fun child hchild => ?_⟩
    cases value with
    | object fields =>
        rw [notedOffset_setMeta rfl, notedMeta_next] at hchild
        exact (Option.some.inj hchild).symm
    | _ => contradiction

/-- An offset that the response carries was computed from its own count. -/
theorem applyMcpNextOffsetMeta_offset {pagination : PaginationParams} (h : notedOffset value = none)
    (hcarried : carriedNextOffset (applyMcpNextOffsetMeta value config (some pagination)) =
      some n) :
    SameBody value (applyMcpNextOffsetMeta value config (some pagination)) ∧
      ∃ count, (value.get "count").bind asU64 = some count ∧ 0 < count ∧
        n = pagination.offset + count := by
  unfold applyMcpNextOffsetMeta at hcarried ⊢
  unfold carriedNextOffset at hcarried
  obtain ⟨child, hchild, hread⟩ := Option.bind_eq_some_iff.mp hcarried
  cases hnext : nextOffset value (some pagination) with
  | none =>
      simp only [hnext, h] at hchild
      contradiction
  | some next =>
      obtain ⟨count, hcount, hpos, heq⟩ := nextOffset_eq_some hnext
      have hcounted (hofNat : child = ResponseBudget.ofNat next) :
          ∃ count, (value.get "count").bind asU64 = some count ∧ 0 < count ∧
            n = pagination.offset + count := by
        rw [hofNat] at hread
        exact ⟨count, hcount, hpos, (eq_of_asU64_ofNat hread).trans heq⟩
      simp only [hnext] at hchild ⊢
      split at hchild
      · exact ⟨addMeta_offset.1, hcounted (addMeta_offset.2 child hchild)⟩
      · exact ⟨refreshMeta_offset.1, hcounted (refreshMeta_offset.2 child hchild)⟩
      · rw [h] at hchild
        contradiction

end Metadata

/-! ## The items behind the offset -/

/-- The items of the list of a response, or its entities. -/
def shownEntities (value : JsonValue) : List JsonValue :=
  match value.get "data" with
  | some (.array items) => items
  | some (.object data) => ((data.lookup "entities").bind asArray).getD []
  | _ => []

def shownColumns (value : JsonValue) : List JsonValue :=
  match value.get "data" with
  | some (.object data) => ((data.lookup "undocumented_columns").bind asArray).getD []
  | _ => []

/-- The response shows the items of the listing from the one offset up to the other, each as
the truncations leave it. -/
def ShowsRange (value : JsonValue) (listing : List Item) (start stop : ℕ) : Prop :=
  let range := (listing.drop start).take (stop - start)
  stop ≤ listing.length ∧
    List.Forall₂ CutDown (range.filterMap Item.entity?) (shownEntities value) ∧
    List.Forall₂ CutDown (range.filterMap Item.column?) (shownColumns value)

/-- The part of a list that is left where it is cut. -/
def keptPart {α : Type*} (limit : Option ℕ) (items : List α) : List α :=
  match limit with
  | some limit => items.take limit
  | none => items

/-- What is left of the two lists are the first items of the page. -/
def CutsFront (limit : Option ℕ) (page : List Item) : Prop :=
  let entities := (keptPart limit (page.filterMap Item.entity?)).length
  let columns := (keptPart limit (page.filterMap Item.column?)).length
  ((page.take (entities + columns)).filterMap Item.entity?).length = entities

/-- The response of a tool that shows a page of its listing. -/
def PagedResponse (kind : Kind) (fields : Fields) (page : List Item) : Prop :=
  Response kind page.length fields (page.filterMap Item.entity?) (page.filterMap Item.column?)

section Pages
variable {kind : Kind} {fields : Fields} {config : BudgetConfig} {pagination : PaginationParams}
  {page listing : List Item} {n k : ℕ} {value other : JsonValue}
  {entities columns : List JsonValue} {limit : Option ℕ}

theorem Counted.shown (h : Counted value entities columns) (hbody : SameBody value other) :
    shownEntities other = entities ∧ shownColumns other = columns := by
  obtain ⟨data, hdata, hlists⟩ := h.lists
  have hother : other.get "data" = some data := (hbody "data" (by decide)).trans hdata
  unfold shownEntities shownColumns
  rw [hother]
  cases hlists with
  | list => exact ⟨rfl, rfl⟩
  | object _ hentities hcolumns =>
      dsimp only
      rw [hentities]
      exact ⟨rfl, hcolumns⟩

theorem forall₂_keptPart_none (items : List JsonValue) :
    List.Forall₂ CutDown (keptPart none items) items :=
  List.forall₂_same.mpr fun _ _ => Relation.ReflTransGen.refl

theorem arrayLimit_eq_none (h : arrayLimit value config = none) :
    applyMcpResponseBudget value config = value := by
  unfold arrayLimit at h
  dsimp only at h
  unfold applyMcpResponseBudget
  dsimp only
  split at h
  · rename_i hfits
    cases hfits with
    | inl hzero => exact if_pos hzero
    | inr hshort => rw [if_pos hshort, ite_self]
  · split at h
    · contradiction
    · split at h
      · contradiction
      · contradiction

theorem arrayLimit_eq_some {m : ℕ} (h : arrayLimit value config = some m) :
    applyMcpResponseBudget value config =
      finalizeMcpBudgetedResponse (shrunk value config) config.mcpMaxResponseBytes
        config.mcpIncludeTruncationMeta (truncateThrice value config).2
          (resultCountHint value) := by
  unfold arrayLimit at h
  dsimp only at h
  split at h
  · contradiction
  · rename_i hlong
    rw [not_or] at hlong
    unfold applyMcpResponseBudget
    dsimp only
    rw [if_neg hlong.1, if_neg hlong.2]

/-- The offset of the next page counts what is left of the two lists. -/
theorem carried_lists
    (h : Response kind (entities.length + columns.length) fields entities columns)
    (hcarried : carriedNextOffset (budgetedValue (.object fields) config (some pagination)) =
      some n) :
    let final := budgetedValue (.object fields) config (some pagination)
    let limit := arrayLimit (.object fields) config
    List.Forall₂ CutDown (keptPart limit entities) (shownEntities final) ∧
      List.Forall₂ CutDown (keptPart limit columns) (shownColumns final) ∧
      0 < (shownEntities final).length + (shownColumns final).length ∧
      n = pagination.offset + ((shownEntities final).length + (shownColumns final).length) := by
  unfold budgetedValue at hcarried ⊢
  dsimp only
  cases hlimit : arrayLimit (.object fields) config with
  | none =>
      rw [arrayLimit_eq_none hlimit] at hcarried ⊢
      obtain ⟨hbody, count, hcount, hpos, hn⟩ :=
        applyMcpNextOffsetMeta_offset (quiet_self h.noMeta).offset hcarried
      have hcounted := h.counted
      obtain ⟨hentities, hcolumns⟩ := hcounted.shown hbody
      have hlength := hcounted.count_eq count hcount
      rw [hentities, hcolumns]
      exact ⟨forall₂_keptPart_none entities, forall₂_keptPart_none columns, by omega, by omega⟩
  | some m =>
      obtain ⟨fields', entities', columns', hshrunk, hcounted, hmeta, hkept, hkeptColumns⟩ :=
        h.shrunk hlimit
      rw [arrayLimit_eq_some hlimit, hshrunk] at hcarried ⊢
      have hcases := finalize_cases hcounted hmeta config.mcpMaxResponseBytes
        config.mcpIncludeTruncationMeta (truncateThrice (.object fields) config).2
        (resultCountHint (.object fields))
      generalize finalizeMcpBudgetedResponse (.object fields') config.mcpMaxResponseBytes
        config.mcpIncludeTruncationMeta (truncateThrice (.object fields) config).2
          (resultCountHint (.object fields)) = finalized at hcarried hcases ⊢
      cases hcases with
      | inl hquiet =>
          obtain ⟨hbody, count, hcount, hpos, hn⟩ :=
            applyMcpNextOffsetMeta_offset hquiet.offset hcarried
          rw [hquiet.sameBody "count" (by decide)] at hcount
          obtain ⟨hentities, hcolumns⟩ := hcounted.shown (hquiet.sameBody.trans hbody)
          have hlength := hcounted.count_eq count hcount
          rw [hentities, hcolumns]
          exact ⟨hkept, hkeptColumns, by omega, by omega⟩
      | inr hsilent =>
          obtain ⟨-, count, hcount, hpos, -⟩ :=
            applyMcpNextOffsetMeta_offset hsilent.offset hcarried
          have hzero := hsilent.count_eq count hcount
          omega

theorem length_items (page : List Item) :
    (page.filterMap Item.entity?).length + (page.filterMap Item.column?).length =
      page.length := by
  induction page with
  | nil => rfl
  | cons item page ih =>
      cases item with
      | entity value =>
          have hentity : (Item.entity value :: page).filterMap Item.entity? =
            value :: page.filterMap Item.entity? := rfl
          have hcolumn : (Item.entity value :: page).filterMap Item.column? =
            page.filterMap Item.column? := rfl
          rw [hentity, hcolumn, List.length_cons, List.length_cons]
          omega
      | column value =>
          have hentity : (Item.column value :: page).filterMap Item.entity? =
            page.filterMap Item.entity? := rfl
          have hcolumn : (Item.column value :: page).filterMap Item.column? =
            value :: page.filterMap Item.column? := rfl
          rw [hentity, hcolumn, List.length_cons, List.length_cons]
          omega

theorem keptPart_front {α : Type*} (limit : Option ℕ) (items : List α) : keptPart limit items <+: items := by
  cases limit with
  | none => exact List.prefix_refl items
  | some m => exact List.take_prefix m items

/-- Two fronts of a list with equally many items. -/
theorem prefix_eq {α : Type*} {items front other : List α} (hfront : front <+: items)
    (hother : other <+: items) (h : front.length = other.length) : front = other :=
  (List.prefix_of_prefix_length_le hfront hother (le_of_eq h)).eq_of_length h

/-- An offset behind a page neither skips nor repeats exactly when the cut lists are the front
of the page. -/
theorem next_offset_contiguous_iff (hpage : page <+: listing.drop pagination.offset)
    (h : PagedResponse kind fields page)
    (hcarried : carriedNextOffset (budgetedValue (.object fields) config (some pagination)) =
      some n) :
    (pagination.offset < n ∧
        ShowsRange (budgetedValue (.object fields) config (some pagination)) listing
          pagination.offset n) ↔
      CutsFront (arrayLimit (.object fields) config) page := by
  have hresponse : Response kind ((page.filterMap Item.entity?).length +
      (page.filterMap Item.column?).length) fields (page.filterMap Item.entity?)
        (page.filterMap Item.column?) := by
    rw [length_items]
    exact h
  obtain ⟨hentities, hcolumns, hpos, hn⟩ := carried_lists hresponse hcarried
  generalize budgetedValue (.object fields) config (some pagination) = final
    at hentities hcolumns hpos hn ⊢
  generalize arrayLimit (.object fields) config = limit at hentities hcolumns ⊢
  have hentitiesPrefix := keptPart_front limit (page.filterMap Item.entity?)
  have hcolumnsPrefix := keptPart_front limit (page.filterMap Item.column?)
  have hshort : (shownEntities final).length + (shownColumns final).length ≤ page.length := by
    rw [← hentities.length_eq, ← hcolumns.length_eq, ← length_items page]
    exact Nat.add_le_add hentitiesPrefix.length_le hcolumnsPrefix.length_le
  have hrange : (listing.drop pagination.offset).take (n - pagination.offset) =
      page.take ((shownEntities final).length + (shownColumns final).length) := by
    have hcount : n - pagination.offset =
        (shownEntities final).length + (shownColumns final).length := by omega
    obtain ⟨rest, hrest⟩ := hpage
    rw [hcount, ← hrest, List.take_append_of_le_length hshort]
  have hlisting : n ≤ listing.length := by
    have hlength := hpage.length_le
    rw [List.length_drop] at hlength
    omega
  have htotal := length_items
    (page.take ((shownEntities final).length + (shownColumns final).length))
  rw [List.length_take, min_eq_left hshort] at htotal
  unfold ShowsRange CutsFront
  dsimp only
  rw [hrange, hentities.length_eq, hcolumns.length_eq]
  constructor
  · rintro ⟨-, -, hshown, -⟩
    exact hshown.length_eq
  · intro hfront
    have hfrontEntities := prefix_eq ((List.take_prefix _ page).filterMap Item.entity?)
      hentitiesPrefix (hfront.trans hentities.length_eq.symm)
    have hcolumnsLength : ((page.take ((shownEntities final).length +
        (shownColumns final).length)).filterMap Item.column?).length =
          (keptPart limit (page.filterMap Item.column?)).length := by
      rw [hcolumns.length_eq]
      omega
    have hfrontColumns := prefix_eq ((List.take_prefix _ page).filterMap Item.column?)
      hcolumnsPrefix hcolumnsLength
    rw [hfrontEntities, hfrontColumns]
    exact ⟨by omega, hlisting, hentities, hcolumns⟩

/-- One list, of whatever items, is always cut at its front. -/
theorem PagedResponse.cutsFront (h : PagedResponse kind fields page)
    (hkind : kind ≠ .undocumented) (limit : Option ℕ) : CutsFront limit page := by
  have hcolumns : page.filterMap Item.column? = [] := by
    obtain ⟨data, -, hpayload⟩ := h.payload
    generalize page.filterMap Item.entity? = entities at hpayload
    generalize page.filterMap Item.column? = columns at hpayload ⊢
    cases hpayload with
    | list => rfl
    | score => rfl
    | undocumented => exact absurd rfl hkind
  have hlength := length_items page
  rw [hcolumns, List.length_nil, Nat.add_zero] at hlength
  have hkept := (keptPart_front limit (page.filterMap Item.entity?)).length_le
  have hnone : keptPart limit ([] : List JsonValue) = [] := by
    cases limit with
    | none => rfl
    | some m => exact List.take_nil
  unfold CutsFront
  dsimp only
  rw [hcolumns, hnone, List.length_nil, Nat.add_zero]
  generalize (keptPart limit (page.filterMap Item.entity?)).length = k at hkept ⊢
  have htaken := length_items (page.take k)
  have hrest : (page.take k).filterMap Item.column? = [] := by
    have hsub := (List.take_sublist k page).filterMap Item.column?
    rw [hcolumns] at hsub
    exact List.eq_nil_of_sublist_nil hsub
  rw [hrest, List.length_nil, List.length_take] at htaken
  omega

end Pages

/-! ## The responses of the tools -/

/-- The fields of a success response as they are written. -/
def responseFields {σ : Type*} (api : JsonValue) (write : σ → JsonValue)
    (response : RowPages.SuccessResponse σ) : Fields :=
  [("api", api), ("count", ResponseBudget.ofNat response.count), ("data", write response.data),
      ("success", .bool true)] ++
    (response.total.toList.map fun total => ("total_available", ResponseBudget.ofNat total)) ++
    response.truncated.toList.map fun truncated => ("truncated", .bool truncated)

def writeSummary (summary : Summary) : JsonValue :=
  .object [("columns_missing_docs", ResponseBudget.ofNat summary.columnsMissingDocs),
    ("columns_returned", ResponseBudget.ofNat summary.columnsReturned),
    ("entities_missing_docs", ResponseBudget.ofNat summary.entitiesMissingDocs),
    ("entities_returned", ResponseBudget.ofNat summary.entitiesReturned),
    ("items_returned", ResponseBudget.ofNat summary.itemsReturned)]

def writeUndocumented (items : UndocumentedItems) : JsonValue :=
  .object [("columns_truncated", .bool items.columnsTruncated),
    ("entities", .array items.entities), ("summary", writeSummary items.summary),
    ("undocumented_columns", .array items.undocumentedColumns)]

section Tools
variable {api : JsonValue} {K : Type*} {search : ManifestSearch K}
  {params : GetUndocumentedParams}

theorem responseFields_response {σ : Type*} {write : σ → JsonValue} {kind : Kind}
    {entities columns : List JsonValue} (api : JsonValue) (response : RowPages.SuccessResponse σ)
    (h : Payload kind (write response.data) entities columns) :
    Response kind response.count (responseFields api write response) entities columns where
  payload := ⟨_, rfl, h⟩
  count_eq := rfl
  noMeta := by
    apply lookup_eq_none
    unfold responseFields
    cases response.total with
    | none =>
        cases response.truncated with
        | none => simp [metaKey]
        | some truncated => simp [metaKey]
    | some total =>
        cases response.truncated with
        | none => simp [metaKey]
        | some truncated => simp [metaKey]

theorem undocumented_payload (items : UndocumentedItems) :
    Payload .undocumented (writeUndocumented items) items.entities items.undocumentedColumns :=
  .undocumented rfl

/-- A tool that lists rows. -/
theorem rows_paged {response : RowPages.SuccessResponse (List JsonValue)}
    (h : response.count = response.data.length) :
    PagedResponse .list (responseFields api .array response) (response.data.map Item.entity) := by
  have hentities : (response.data.map Item.entity).filterMap Item.entity? = response.data := by
    rw [List.filterMap_map]
    exact List.filterMap_some
  have hcolumns : (response.data.map Item.entity).filterMap Item.column? = [] := by
    rw [List.filterMap_map]
    exact List.filterMap_eq_nil_iff.mpr fun _ _ => rfl
  unfold PagedResponse
  rw [hentities, hcolumns, List.length_map, ← h]
  exact responseFields_response api response (.list response.data)

/-- Each answer of `get_undocumented` shows a page of the undocumented items. -/
theorem getUndocumented_paged {items : List Item} (h : missingList search params = .ok items)
    (hoffset : params.offset ≤ search.config.maxOffset) :
    ∃ response page, getUndocumented search params = .ok response ∧
      page <+: items.drop params.offset ∧
      PagedResponse .undocumented (responseFields api writeUndocumented response) page := by
  obtain ⟨state, hstate, hshows⟩ := getUndocumented_eq h hoffset
  refine ⟨_, window (SearchPages.pageLimit search.config params.limit) params.offset items, hstate,
    List.take_prefix _ _, ?_⟩
  unfold PagedResponse
  rw [← hshows.entities, ← hshows.columns, ← hshows.returned]
  exact responseFields_response api (undocumentedResponse params.offset state)
    (undocumented_payload _)

end Tools

/-- An entity with eight columns, and an entity without. -/
def twoEntities : List Item :=
  .entity (.object [("unique_id", .string "a")]) ::
    (["1", "2", "3", "4", "5", "6", "7", "8"].map fun column => .column (columnItem "a" column)) ++
    [.entity (.object [("unique_id", .string "b")])]

/-- The page with all of them. -/
def twoEntitiesAnswer : RowPages.SuccessResponse UndocumentedItems :=
  { data :=
      { entities := twoEntities.filterMap Item.entity?
        summary := ⟨2, 8, 2, 8, 10⟩
        columnsTruncated := false
        undocumentedColumns := twoEntities.filterMap Item.column? }
    count := 10
    total := some 10
    truncated := none }

def twoEntitiesFields : Fields := responseFields (.object []) writeUndocumented twoEntitiesAnswer

def oneRow : Fields :=
  responseFields (.object []) .array
    { data := [.string "a"], count := 1, total := some 2, truncated := some true }

theorem next_offset_contiguous_rows :
    (0 < 1 ∧ ShowsRange (budgetedValue (.object oneRow) ⟨0, 4000, true⟩ (some ⟨some 1, 0⟩))
        [.entity (.string "a"), .entity (.string "b")] 0 1) ↔
      CutsFront (arrayLimit (.object oneRow) ⟨0, 4000, true⟩) [.entity (.string "a")] := by
  have hpage : [Item.entity (.string "a")] <+:
      [Item.entity (.string "a"), .entity (.string "b")] := List.prefix_append _ _
  have hpaged : PagedResponse .list oneRow [.entity (.string "a")] := rows_paged rfl
  have hcarried : carriedNextOffset (budgetedValue (.object oneRow) ⟨0, 4000, true⟩
      (some ⟨some 1, 0⟩)) = some 1 := by decide
  exact next_offset_contiguous_iff hpage hpaged hcarried

/-- Five of eight columns are left, and both entities: the next page starts at the seventh
column, so the sixth is never shown and the second entity is shown again. -/
theorem column_skipped :
    PagedResponse .undocumented twoEntitiesFields twoEntities ∧
      carriedNextOffset (budgetedValue (.object twoEntitiesFields) ⟨600, 4000, false⟩
        (some ⟨none, 0⟩)) = some 7 ∧
      ¬ ShowsRange (budgetedValue (.object twoEntitiesFields) ⟨600, 4000, false⟩
        (some ⟨none, 0⟩)) twoEntities 0 7 := by
  have hfinal : (carriedNextOffset (budgetedValue (.object twoEntitiesFields) ⟨600, 4000, false⟩
        (some ⟨none, 0⟩)),
      (shownEntities (budgetedValue (.object twoEntitiesFields) ⟨600, 4000, false⟩
        (some ⟨none, 0⟩))).length) = (some 7, 2) := by decide +kernel
  obtain ⟨hcarried, hshown⟩ := Prod.mk.inj hfinal
  refine ⟨responseFields_response _ twoEntitiesAnswer (undocumented_payload _), hcarried, ?_⟩
  rintro ⟨-, hentities, -⟩
  have hlength := hentities.length_eq
  rw [hshown] at hlength
  exact absurd hlength (by decide)

end DbtNova.ResponsePages
