import DbtNova.Config
import Mathlib.Data.List.Perm.Basic
import Mathlib.Data.List.Sort
import Mathlib.Data.String.Basic

/-!
# Fingerprints of the configuration

A version of the storage is identified by hashes of JSON payloads. The hash is a
parameter; all that is used of it is that it tells inputs apart and that its
hexadecimal form is never empty. Object fields stand in the order of the
serializer's map, which sorts them by key.
-/
namespace DbtNova
open Text

/-- The hash function. -/
structure Blake3 where
  hex : List UInt8 → String
  injective : Function.Injective hex
  nonempty : ∀ bytes, hex bytes ≠ ""

def textBytes (s : String) : List UInt8 := s.toByteArray.data.toList

theorem textBytes_injective : Function.Injective textBytes := by
  intro s t h
  have hdata := Array.toList_inj.mp h
  exact String.toByteArray_inj.mp (ByteArray.ext hdata)

namespace Blake3

def hashJson (b : Blake3) (payload : JsonValue) : String := b.hex (textBytes payload.toText)

theorem hashJson_inj (b : Blake3) {v w : JsonValue} (hv : v.wellFormed = true)
    (hw : w.wellFormed = true) : b.hashJson v = b.hashJson w ↔ v = w := by
  refine ⟨fun h => ?_, fun h => by rw [h]⟩
  exact JsonValue.toText_injective hv hw (textBytes_injective (b.injective h))

end Blake3

namespace Fingerprint

def stringArray (texts : List String) : JsonValue := .array (texts.map .string)

@[simp] theorem stringArray_wellFormed (texts : List String) :
    (stringArray texts).wellFormed = true := by
  simp [stringArray, JsonValue.wellFormed, JsonValue.wellFormedValues_iff]

@[simp] theorem stringArray_inj {s t : List String} :
    stringArray s = stringArray t ↔ s = t := by
  have hinj : Function.Injective JsonValue.string := fun _ _ h => JsonValue.string.inj h
  simp [stringArray, hinj.list_map.eq_iff]

/-! ## Pruning -/

def canonicalPrunePatterns (patterns : List String) : List String :=
  ((patterns.map trim).filter fun p => p != "").insertionSort (· ≤ ·)

def manifestPruningEnabled (config : DbtNovaConfig) : Bool :=
  !(canonicalPrunePatterns config.manifestPruneAllowIds).isEmpty ||
    !(canonicalPrunePatterns config.manifestPruneDenyIds).isEmpty

def prunePayload (config : DbtNovaConfig) : JsonValue :=
  .object
    [("allow", stringArray (canonicalPrunePatterns config.manifestPruneAllowIds)),
      ("deny", stringArray (canonicalPrunePatterns config.manifestPruneDenyIds))]

def manifestPruneFingerprint (b : Blake3) (config : DbtNovaConfig) : String :=
  if !manifestPruningEnabled config then "" else b.hashJson (prunePayload config)

/-- Two configurations ask for the same pruning. -/
def SamePruning (c c' : DbtNovaConfig) : Prop :=
  canonicalPrunePatterns c.manifestPruneAllowIds =
      canonicalPrunePatterns c'.manifestPruneAllowIds ∧
    canonicalPrunePatterns c.manifestPruneDenyIds =
      canonicalPrunePatterns c'.manifestPruneDenyIds

theorem prunePayload_wellFormed (config : DbtNovaConfig) :
    (prunePayload config).wellFormed = true := by
  simp [prunePayload, JsonValue.wellFormed, JsonValue.wellFormedFields_iff]

theorem prunePayload_inj {c c' : DbtNovaConfig} :
    prunePayload c = prunePayload c' ↔ SamePruning c c' := by
  simp [prunePayload, SamePruning]

theorem manifestPruneFingerprint_eq_iff (b : Blake3) (c c' : DbtNovaConfig) :
    manifestPruneFingerprint b c = manifestPruneFingerprint b c' ↔ SamePruning c c' := by
  have hsame : SamePruning c c' → manifestPruningEnabled c = manifestPruningEnabled c' := by
    intro h
    obtain ⟨hallow, hdeny⟩ := h
    simp only [manifestPruningEnabled, hallow, hdeny]
  have hnone : ∀ c, manifestPruningEnabled c = false →
      canonicalPrunePatterns c.manifestPruneAllowIds = [] ∧
        canonicalPrunePatterns c.manifestPruneDenyIds = [] := by
    intro c hc
    simpa [manifestPruningEnabled] using hc
  unfold manifestPruneFingerprint
  cases hc : manifestPruningEnabled c <;> cases hc' : manifestPruningEnabled c'
  · simp [SamePruning, hnone c hc, hnone c' hc']
  · have hne : ¬ SamePruning c c' := fun h => by simp [hsame h, hc'] at hc
    simp [hne, (b.nonempty _).symm, Blake3.hashJson]
  · have hne : ¬ SamePruning c c' := fun h => by simp [hsame h, hc'] at hc
    simp [hne, b.nonempty, Blake3.hashJson]
  · simpa [b.hashJson_inj (prunePayload_wellFormed c) (prunePayload_wellFormed c')]
      using prunePayload_inj

/-! ## Search index -/

def storageFormatVersion : String := "nova-storage-v2"

def legacyStorageFormatVersion : String := "nova-storage-v1"

def modeName : ExtendedMetaFieldMode → String
  | .keyword => "keyword"
  | .text => "text"
  | .stringArray => "string_array"
  | .bool => "bool"

/-- The field as the fingerprint sees it. -/
def canonicalField (field : ExtendedMetaFieldConfig) : ExtendedMetaFieldConfig :=
  { field with path := trim field.path, fieldAlias := trim field.fieldAlias }

def fieldPayload (field : ExtendedMetaFieldConfig) : JsonValue :=
  .object
    [("alias", .string field.fieldAlias), ("boost", .number field.boost.text),
      ("mode", .string (modeName field.mode)), ("path", .string field.path),
      ("summary", .bool field.summary)]

def sortByText (payloads : List JsonValue) : List JsonValue :=
  payloads.insertionSort fun a b => a.toText ≤ b.toText

def canonicalFields (extendedMeta : ExtendedMetaSearchConfig) : List ExtendedMetaFieldConfig :=
  extendedMeta.fields.map canonicalField

def extendedMetaPayload (extendedMeta : ExtendedMetaSearchConfig) : JsonValue :=
  .object
    [("fields", .array (sortByText ((canonicalFields extendedMeta).map fieldPayload))),
      ("max_bytes_per_value", .ofNat extendedMeta.maxBytesPerValue),
      ("max_fields", .ofNat extendedMeta.maxFields),
      ("max_values_per_field", .ofNat extendedMeta.maxValuesPerField)]

def indexFingerprintForFormat (b : Blake3) (search : SearchConfig) (format : Option String) :
    String :=
  match format with
  | none =>
      if search.extendedMeta.fields.isEmpty then ""
      else b.hashJson (.object [("extended_meta", extendedMetaPayload search.extendedMeta)])
  | some version =>
      b.hashJson (.object
        [("extended_meta", extendedMetaPayload search.extendedMeta),
          ("storage_format_version", .string version)])

def indexFingerprint (b : Blake3) (search : SearchConfig) : String :=
  indexFingerprintForFormat b search (some storageFormatVersion)

def legacyIndexFingerprint (b : Blake3) (search : SearchConfig) : String :=
  indexFingerprintForFormat b search none

/-- The same extended metadata settings, whatever the order of the fields. -/
structure SameExtendedMeta (e e' : ExtendedMetaSearchConfig) : Prop where
  fields : (canonicalFields e).Perm (canonicalFields e')
  maxFields : e.maxFields = e'.maxFields
  maxValuesPerField : e.maxValuesPerField = e'.maxValuesPerField
  maxBytesPerValue : e.maxBytesPerValue = e'.maxBytesPerValue

theorem fieldPayload_wellFormed (field : ExtendedMetaFieldConfig) :
    (fieldPayload field).wellFormed = true := by
  have hboost := field.boost.isNumber
  simp only [Bool.and_eq_true] at hboost
  simp [fieldPayload, JsonValue.wellFormed, JsonValue.wellFormedFields_iff, hboost]

theorem modeName_injective : Function.Injective modeName := by
  intro m m' h
  cases m <;> cases m' <;> simp [modeName] at h ⊢

theorem fieldPayload_injective : Function.Injective fieldPayload := by
  intro f g h
  obtain ⟨path, fieldAlias, mode, ⟨boost, hboost⟩, summary⟩ := f
  obtain ⟨path', fieldAlias', mode', ⟨boost', hboost'⟩, summary'⟩ := g
  simpa [fieldPayload, modeName_injective.eq_iff, and_comm, and_left_comm, and_assoc] using h

theorem sortByText_eq_iff {vs ws : List JsonValue} (hvs : ∀ v ∈ vs, v.wellFormed = true)
    (hws : ∀ w ∈ ws, w.wellFormed = true) : sortByText vs = sortByText ws ↔ vs.Perm ws := by
  have hperm (us : List JsonValue) : (sortByText us).Perm us := List.perm_insertionSort _ us
  constructor
  · intro h
    exact (hperm vs).symm.trans (h ▸ hperm ws)
  · intro h
    have htrans : IsTrans JsonValue fun a b => a.toText ≤ b.toText :=
      ⟨fun _ _ _ => le_trans⟩
    have htotal : Std.Total fun a b : JsonValue => a.toText ≤ b.toText :=
      ⟨fun a b => le_total a.toText b.toText⟩
    have hall : ((sortByText vs).Perm (sortByText ws)) :=
      (hperm vs).trans (h.trans (hperm ws).symm)
    refine hall.eq_of_pairwise ?_ (List.pairwise_insertionSort _ vs)
      (List.pairwise_insertionSort _ ws)
    intro v w hv hw hle hge
    exact JsonValue.toText_injective (hvs v ((hperm vs).mem_iff.mp hv))
      (hws w ((hperm ws).mem_iff.mp hw)) (le_antisymm hle hge)

theorem extendedMetaPayload_wellFormed (e : ExtendedMetaSearchConfig) :
    (extendedMetaPayload e).wellFormed = true := by
  have hfields : ∀ v ∈ sortByText ((canonicalFields e).map fieldPayload),
      v.wellFormed = true := by
    intro v hv
    rw [sortByText, List.mem_insertionSort, List.mem_map] at hv
    obtain ⟨f, -, rfl⟩ := hv
    exact fieldPayload_wellFormed f
  simpa [extendedMetaPayload, JsonValue.wellFormed, JsonValue.wellFormedFields_iff,
    JsonValue.wellFormedValues_iff] using hfields

theorem extendedMetaPayload_inj {e e' : ExtendedMetaSearchConfig} :
    extendedMetaPayload e = extendedMetaPayload e' ↔ SameExtendedMeta e e' := by
  have hwf (e : ExtendedMetaSearchConfig) :
      ∀ v ∈ (canonicalFields e).map fieldPayload, v.wellFormed = true := by
    intro v hv
    obtain ⟨f, -, rfl⟩ := List.mem_map.mp hv
    exact fieldPayload_wellFormed f
  have hsort := sortByText_eq_iff (hwf e) (hwf e')
  rw [List.map_perm_map_iff fieldPayload_injective] at hsort
  constructor
  · intro h
    simp only [extendedMetaPayload, JsonValue.object.injEq, List.cons.injEq, Prod.mk.injEq,
      JsonValue.array.injEq, JsonValue.ofNat_inj, true_and, and_true] at h
    exact ⟨hsort.mp h.1, h.2.2.1, h.2.2.2, h.2.1⟩
  · intro h
    simp only [extendedMetaPayload, hsort.mpr h.fields, h.maxFields, h.maxValuesPerField,
      h.maxBytesPerValue]

theorem indexFingerprint_eq_iff (b : Blake3) (s s' : SearchConfig) :
    indexFingerprint b s = indexFingerprint b s' ↔
      SameExtendedMeta s.extendedMeta s'.extendedMeta := by
  have hwf (s : SearchConfig) :
      (JsonValue.object [("extended_meta", extendedMetaPayload s.extendedMeta),
        ("storage_format_version", .string storageFormatVersion)]).wellFormed = true := by
    simp [JsonValue.wellFormed, JsonValue.wellFormedFields_iff, extendedMetaPayload_wellFormed]
  rw [indexFingerprint, indexFingerprint, indexFingerprintForFormat, indexFingerprintForFormat,
    b.hashJson_inj (hwf s) (hwf s'), ← extendedMetaPayload_inj]
  simp

theorem indexFingerprint_ne_empty (b : Blake3) (s : SearchConfig) :
    indexFingerprint b s ≠ "" := b.nonempty _

end Fingerprint

end DbtNova
