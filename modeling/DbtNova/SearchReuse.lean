import DbtNova.EmbeddingText
import DbtNova.SearchIndex

/-!
# Reusing search artefacts

A persisted index and the cached embeddings are found by the scoped manifest hash.
Of the search configuration the hash knows the extended metadata settings only;
the theorem says what else has to agree before two configurations with the same
hash would have written the same artefacts.
-/
namespace DbtNova.SearchReuse

open Text SearchIndex EmbeddingText ManifestSignature Fingerprint

variable (toLowercase : String → String) (check : NgramCheck) (input : IndexInput)

/-- Both configurations write the same index and embed every entity by the same text. -/
structure SameArtefacts (c c' : SearchConfig) : Prop where
  index : ∀ i i', build check input c = .ok i → build check input c' = .ok i' → SameContent i i'
  embeddings : ∀ stored ∈ input.entities,
    embeddingTextFromArchived toLowercase stored.2 c =
      embeddingTextFromArchived toLowercase stored.2 c'

/-- The settings outside the fingerprint agree on this input. -/
structure UnhashedSettingsAgree (c c' : SearchConfig) : Prop where
  index : NgramAccepted check c → NgramAccepted check c' → IndexSettingsAgree input c c'
  embeddings : ∀ stored ∈ input.entities,
    ∀ b, isCharBoundary (joinedTokens toLowercase stored.2) b = true → (Kept c b ↔ Kept c' b)

theorem sharedHash_reuse_iff (b : Blake3) (signature : Signature) (c c' : DbtNovaConfig)
    (hvalid : ExtendedMeta.validate c.search.extendedMeta = .ok ())
    (hhash : scopedManifestHash b (withFingerprints b c signature) =
      scopedManifestHash b (withFingerprints b c' signature)) :
    SameArtefacts toLowercase check input c.search c'.search ↔
      UnhashedSettingsAgree toLowercase check input c.search c'.search := by
  obtain ⟨-, -, hextended⟩ := (withFingerprints_hash_eq_iff b c c' signature signature).mp hhash
  have hindex := build_same_iff check input hvalid hextended
  constructor
  · intro h
    refine ⟨hindex.mp h.index, fun stored hstored => ?_⟩
    exact (embeddingText_same_iff toLowercase stored.2 _ _).mp (h.embeddings stored hstored)
  · intro h
    refine ⟨hindex.mpr h.index, fun stored hstored => ?_⟩
    exact (embeddingText_same_iff toLowercase stored.2 _ _).mpr (h.embeddings stored hstored)

/-! One model with a short statement, under a smaller cap and without n-grams. -/

def ordersInput : IndexInput where
  entities :=
    [("model.shop.orders",
      { name := some "orders", payload := .object [("raw_code", .string "select 1")] })]
  resourceTypes _ := some "model"
  filePaths _ := none
  tagsById _ := none

def ngramRange : NgramCheck := fun least most =>
  if least = 0 then some "min_gram must be greater than 0"
  else if most < least then some "min_gram must not be greater than max_gram"
  else none

def smallCap : DbtNovaConfig := { search := { maxSqlChunkBytes := 1000 } }

def withoutNgrams : DbtNovaConfig := { search := { enableNgram := false } }

theorem ordersInput_sqlTexts {stored : String × Entity} (h : stored ∈ ordersInput.entities) :
    sqlTexts stored.2.payload = ["select 1"] := by
  rw [List.mem_singleton.mp h]
  rfl

theorem smallCap_reuses :
    SameArtefacts toAsciiLowercase ngramRange ordersInput smallCap.search
      ({} : DbtNovaConfig).search := by
  apply (sharedHash_reuse_iff toAsciiLowercase ngramRange ordersInput spelledBlake3 {} smallCap {}
    rfl rfl).mpr
  refine ⟨fun _ _ => ⟨rfl, .inl rfl, ?_⟩, fun _ _ _ _ => Iff.rfl⟩
  intro stored hstored sql hsql position hposition
  rw [ordersInput_sqlTexts hstored, List.mem_singleton] at hsql
  subst hsql
  have hshort : position ≤ 8 := le_byteLength_of_isCharBoundary hposition
  have hcap : smallCap.search.maxSqlChunkBytes = 1000 := rfl
  have hcap' : ({} : DbtNovaConfig).search.maxSqlChunkBytes = 262144 := rfl
  omega

theorem ngramSwitch_not_hashed :
    ExtendedMeta.validate withoutNgrams.search.extendedMeta = .ok () ∧
      withoutNgrams.search.embeddingModel = ({} : DbtNovaConfig).search.embeddingModel ∧
      scopedManifestHash spelledBlake3 (withFingerprints spelledBlake3 withoutNgrams {}) =
        scopedManifestHash spelledBlake3 (withFingerprints spelledBlake3 {} {}) ∧
      ¬ SameArtefacts toAsciiLowercase ngramRange ordersInput withoutNgrams.search
        ({} : DbtNovaConfig).search := by
  refine ⟨rfl, rfl, rfl, fun h => ?_⟩
  have hextended : SameExtendedMeta withoutNgrams.search.extendedMeta
      ({} : DbtNovaConfig).search.extendedMeta := ⟨List.Perm.refl _, rfl, rfl, rfl⟩
  have hagree := (build_same_iff ngramRange ordersInput rfl hextended).mp h.index rfl rfl
  rcases hagree.ngram with hswitch | hnone
  · cases hswitch
  · cases hnone _ List.mem_cons_self

end DbtNova.SearchReuse
