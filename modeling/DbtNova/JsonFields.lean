import DbtNova.EntityMeta
import Mathlib.Data.List.Nodup
import Mathlib.Data.String.Basic

/-!
# The fields of an object

An object is a map ordered by key. What its updates do is said by what a lookup finds
afterwards and by which keys there are, and two objects with their keys in order are equal
when every lookup agrees.
-/
namespace DbtNova.JsonValue

section Fields
variable {key other : String} {value new : JsonValue} {fields : List (String × JsonValue)}

theorem insertField_cons (first : String) (child : JsonValue) :
    insertField key value ((first, child) :: fields) =
      if key < first then (key, value) :: (first, child) :: fields
      else (first, child) :: insertField key value fields := rfl

theorem insertField_perm :
    (insertField key value fields).Perm ((key, value) :: fields) := by
  induction fields with
  | nil => exact List.Perm.refl _
  | cons field fields ih =>
      rw [insertField]
      split
      · exact List.Perm.refl _
      · exact (ih.cons field).trans (List.Perm.swap _ _ _)

theorem mem_keys_insertField :
    other ∈ (insertField key value fields).map Prod.fst ↔
      other = key ∨ other ∈ fields.map Prod.fst := by
  induction fields with
  | nil => simp [insertField]
  | cons field fields ih =>
      rw [insertField]
      split
      · simp
      · rw [List.map_cons, List.mem_cons, ih, List.map_cons, List.mem_cons, or_left_comm]

theorem keys_setField : (setField key value fields).map Prod.fst = fields.map Prod.fst := by
  unfold setField
  rw [List.map_map]
  apply List.map_congr_left
  intro field _
  simp only [Function.comp]
  split
  · rename_i heq
    exact heq.symm
  · rfl

theorem lookup_eq_none (h : key ∉ fields.map Prod.fst) : fields.lookup key = none := by
  rw [List.lookup_eq_none_iff]
  intro field hfield
  rw [bne_iff_ne]
  intro heq
  rw [heq] at h
  exact h (List.mem_map_of_mem hfield)

theorem mem_of_lookup (h : fields.lookup key = some value) : (key, value) ∈ fields := by
  obtain ⟨before, after, hfields, -⟩ := List.lookup_eq_some_iff.mp h
  rw [hfields]
  exact List.mem_append_right _ List.mem_cons_self

theorem lookup_isSome (h : key ∈ fields.map Prod.fst) : (fields.lookup key).isSome = true := by
  rw [Option.isSome_iff_ne_none]
  intro hnone
  obtain ⟨field, hfield, rfl⟩ := List.mem_map.mp h
  exact absurd rfl (bne_iff_ne.mp (List.lookup_eq_none_iff.mp hnone field hfield))

theorem lookup_cons_ne {child : JsonValue} (h : key ≠ other) :
    ((other, child) :: fields).lookup key = fields.lookup key := by
  rw [List.lookup_cons, beq_eq_false_iff_ne.mpr h]

theorem lookup_insertField (h : key ∉ fields.map Prod.fst) :
    (insertField key value fields).lookup key = some value := by
  induction fields with
  | nil => simp [insertField]
  | cons field fields ih =>
      rw [List.map_cons, List.mem_cons, not_or] at h
      rw [insertField]
      split
      · exact List.lookup_cons_self
      · obtain ⟨first, child⟩ := field
        rw [List.lookup_cons, beq_eq_false_iff_ne.mpr h.1]
        exact ih h.2

theorem lookup_insertField_ne (h : key ≠ other) {child : JsonValue} :
    (insertField other child fields).lookup key = fields.lookup key := by
  induction fields with
  | nil => exact lookup_cons_ne h
  | cons field fields ih =>
      obtain ⟨first, found⟩ := field
      rw [insertField_cons]
      split
      · exact lookup_cons_ne h
      · rw [List.lookup_cons, List.lookup_cons, ih]

theorem lookup_setField (h : (fields.lookup key).isSome = true) :
    (setField key new fields).lookup key = some new := by
  induction fields with
  | nil => contradiction
  | cons field fields ih =>
      obtain ⟨first, child⟩ := field
      unfold setField at ih ⊢
      rw [List.map_cons]
      by_cases hkey : first = key
      · rw [if_pos hkey, List.lookup_cons_self]
      · rw [if_neg hkey, List.lookup_cons, beq_eq_false_iff_ne.mpr (Ne.symm hkey)]
        rw [List.lookup_cons, beq_eq_false_iff_ne.mpr (Ne.symm hkey)] at h
        exact ih h

theorem lookup_setField_ne (h : key ≠ other) {child : JsonValue} :
    (setField other child fields).lookup key = fields.lookup key := by
  induction fields with
  | nil => rfl
  | cons field fields ih =>
      obtain ⟨first, found⟩ := field
      unfold setField at ih ⊢
      rw [List.map_cons]
      by_cases hfirst : first = other
      · rw [if_pos hfirst, lookup_cons_ne h, ih, hfirst, lookup_cons_ne h]
      · rw [if_neg hfirst, List.lookup_cons, List.lookup_cons, ih]

theorem putField_of_isSome (h : (fields.lookup key).isSome = true) :
    putField key value fields = setField key value fields :=
  if_pos h

theorem lookup_putField : (putField key value fields).lookup key = some value := by
  unfold putField
  split
  · rename_i hsome
    exact lookup_setField hsome
  · rename_i hnone
    apply lookup_insertField
    intro hmem
    exact hnone (lookup_isSome hmem)

theorem lookup_putField_ne (h : key ≠ other) {child : JsonValue} :
    (putField other child fields).lookup key = fields.lookup key := by
  unfold putField
  split
  · exact lookup_setField_ne h
  · exact lookup_insertField_ne h

theorem mem_putField {field : String × JsonValue} (h : field ∈ putField key value fields) :
    field = (key, value) ∨ field ∈ fields := by
  unfold putField at h
  split at h
  · obtain ⟨before, hbefore, heq⟩ := List.mem_map.mp h
    split at heq
    · exact Or.inl heq.symm
    · exact Or.inr (heq ▸ hbefore)
  · exact List.mem_cons.mp (insertField_perm.mem_iff.mp h)

theorem nodup_putField (h : (fields.map Prod.fst).Nodup) :
    ((putField key value fields).map Prod.fst).Nodup := by
  unfold putField
  split
  · rw [keys_setField]
    exact h
  · rename_i hnone
    rw [(insertField_perm.map Prod.fst).nodup_iff, List.map_cons, List.nodup_cons]
    exact ⟨fun hmem => hnone (lookup_isSome hmem), h⟩

/-! ## Keys in order -/

/-- The entries have their keys in order, each once. -/
def KeySorted {κ V : Type*} [LT κ] (entries : List (κ × V)) : Prop :=
  (entries.map Prod.fst).Pairwise (· < ·)

theorem keySorted_setField (h : KeySorted fields) : KeySorted (setField key value fields) := by
  unfold KeySorted
  rw [keys_setField]
  exact h

theorem keySorted_insertField (h : KeySorted fields) (hnew : key ∉ fields.map Prod.fst) :
    KeySorted (insertField key value fields) := by
  induction fields with
  | nil => exact List.pairwise_singleton _ key
  | cons field fields ih =>
      obtain ⟨hfirst, hrest⟩ := List.pairwise_cons.mp h
      rw [List.map_cons, List.mem_cons, not_or] at hnew
      unfold KeySorted
      rw [insertField]
      split
      · rename_i hlt
        refine List.pairwise_cons.mpr ⟨fun other hother => ?_, h⟩
        cases List.mem_cons.mp hother with
        | inl heq => exact heq ▸ hlt
        | inr hmem => exact hlt.trans (hfirst other hmem)
      · rename_i hle
        refine List.pairwise_cons.mpr ⟨fun other hother => ?_, ih hrest hnew.2⟩
        cases mem_keys_insertField.mp hother with
        | inl heq => exact heq ▸ lt_of_le_of_ne (not_lt.mp hle) (Ne.symm hnew.1)
        | inr hmem => exact hfirst other hmem

end Fields

section KeySorted
variable {κ V : Type*} [LinearOrder κ] {entries others : List (κ × V)}

theorem KeySorted.nodup (h : KeySorted entries) : (entries.map Prod.fst).Nodup :=
  h.imp fun hlt => hlt.ne

theorem KeySorted.lookup_of_mem (h : KeySorted entries) {entry : κ × V} (hmem : entry ∈ entries) :
    entries.lookup entry.1 = some entry.2 := by
  induction entries with
  | nil => contradiction
  | cons first entries ih =>
      obtain ⟨key, value⟩ := first
      obtain ⟨hfirst, hrest⟩ := List.pairwise_cons.mp h
      rw [List.lookup_cons]
      cases List.mem_cons.mp hmem with
      | inl heq =>
          subst heq
          simp
      | inr hmem =>
          have hlt : key < entry.1 := hfirst _ (List.mem_map_of_mem hmem)
          rw [beq_eq_false_iff_ne.mpr hlt.ne']
          exact ih hrest hmem

theorem KeySorted.mem_iff (h : KeySorted entries) (entry : κ × V) :
    entry ∈ entries ↔ entries.lookup entry.1 = some entry.2 := by
  refine ⟨h.lookup_of_mem, fun hlookup => ?_⟩
  obtain ⟨before, after, hentries, -⟩ := List.lookup_eq_some_iff.mp hlookup
  rw [hentries]
  exact List.mem_append_right _ List.mem_cons_self

/-- A map is what its lookups find. -/
theorem KeySorted.eq_of_lookup (h : KeySorted entries) (h' : KeySorted others)
    (heq : ∀ key, entries.lookup key = others.lookup key) : entries = others := by
  have hmem : ∀ entry, entry ∈ entries ↔ entry ∈ others := by
    intro entry
    rw [h.mem_iff, h'.mem_iff, heq]
  have hperm : entries.Perm others :=
    (List.perm_ext_iff_of_nodup (List.Nodup.of_map _ h.nodup) (List.Nodup.of_map _ h'.nodup)).mpr hmem
  exact hperm.eq_of_pairwise (fun a b _ _ hab hba => absurd hba hab.not_gt) (List.pairwise_map.mp h)
    (List.pairwise_map.mp h')

end KeySorted

end DbtNova.JsonValue
