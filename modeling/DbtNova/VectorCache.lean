import DbtNova.Error
import Mathlib.Algebra.Order.Ring.Nat
import Mathlib.Data.List.Sort

/-!
# The vector search cache

The first start embeds every entity that has a text, normalizes the vectors, in
the quantized mode rounds them to bytes, and saves them. A later start loads the
file, checks that it belongs to the model and manifest at hand, and restores the
vectors from it.

`f32` is the binary float of the core library, whose equality is that of bits
(with one NaN). The embedding model is a function of the texts. Serialization,
compression and the size limit of the file are taken to be faithful, and the
nearest-neighbour index is left out: without it every vector is scored.
-/
namespace DbtNova.VectorCache
open Float.Model

/-! ## Float operations of the source that the core library leaves opaque -/

/-- The float of an integer; exact below 2^24. -/
def f32OfInt (n : ℤ) : Float32 := .ofModel (.pack (.ofInt Format.binary32 n))

/-- `f32::from(i8)`. -/
def f32OfI8 (n : Int8) : Float32 := f32OfInt n.toInt

/-- `f32::round`: to the nearest integer, halves away from zero. -/
def f32Round (x : Float32) : Float32 :=
  match x.toModel.unpack with
  | .finite sign mantissa exponent _ =>
      if 0 ≤ exponent then x
      else
        let unit := 2 ^ (-exponent).toNat
        let rounded := (2 * mantissa + unit) / (2 * unit)
        .ofModel (.pack (.normalize Format.binary32 (sign.apply rounded) 0 sign))
  | _ => x

/-- `f32::clamp`; a NaN stays. -/
def f32Clamp (low high x : Float32) : Float32 :=
  let x := if x < low then low else x
  if high < x then high else x

/-- `x as i8`: truncation that saturates, and 0 for a NaN. -/
def f32ToI8 (x : Float32) : Int8 := x.toModel.unpack.toInt8

/-- The key by which `f32::total_cmp` compares. -/
def totalKey (x : Float32) : ℤ :=
  let bits := x.toBits.toNat
  if bits < 0x80000000 then bits else 0x7fffffff - bits

def quantizeComponent (v : Float32) : Int8 :=
  f32ToI8 (f32Clamp (f32OfInt (-127)) (f32OfInt 127) (f32Round (v * f32OfInt 127)))

def quantizeVector (vec : List Float32) : List Int8 := vec.map quantizeComponent

def normalizeVector (vec : List Float32) : List Float32 :=
  let norm := (vec.foldl (fun sum v => sum + v * v) (f32OfInt 0)).sqrt
  if f32OfInt 0 < norm then vec.map fun v => v / norm else vec

/-! ## Building and saving -/

structure VectorSettings where
  modelName : String
  manifestHash : String
  embeddingBatchSize : ℕ
  enableVectorQuantization : Bool

structure QuantizedEmbedding where
  id : String
  values : List Int8
  deriving DecidableEq

inductive DenseEmbeddings where
  | float (embeddings : List (String × List Float32))
  | quantized (embeddings : List QuantizedEmbedding)
  deriving DecidableEq

structure CachedEmbeddings where
  schemaVersion : ℕ
  modelName : String
  manifestHash : String
  entityIds : List String
  denseEmbeddings : List (List Float32)
  isQuantized : Bool
  deriving DecidableEq

def rkyvSchemaVersion : ℕ := 4

/-- The embedding model: one vector for each text, or an error. -/
abbrev Embed := List String → Result (List (List Float32))

/-- The loop of `build`: the batch that is being filled and what was produced. -/
structure Progress where
  batchIds : List String := []
  batchTexts : List String := []
  produced : List (String × List Float32) := []

/-- A batch that fails, or comes back with another size, is skipped. -/
def flushBatch (embed : Embed) (p : Progress) : Progress :=
  if p.batchTexts.isEmpty then p
  else
    match embed p.batchTexts with
    | .error _ => { p with batchIds := [], batchTexts := [] }
    | .ok vecs =>
        if vecs.length = p.batchIds.length then
          ⟨[], [], p.produced ++ p.batchIds.zip (vecs.map normalizeVector)⟩
        else { p with batchIds := [], batchTexts := [] }

/-- An entity of the store, with the text that is embedded for it. -/
def pushEntity (cfg : VectorSettings) (embed : Embed) (p : Progress) (entity : String × String) :
    Progress :=
  if entity.2 = "" then p
  else
    let p := { p with
      batchIds := p.batchIds ++ [entity.1], batchTexts := p.batchTexts ++ [entity.2] }
    if max cfg.embeddingBatchSize 1 ≤ p.batchTexts.length then flushBatch embed p else p

def embeddableEntityCount (store : List (String × String)) : ℕ :=
  store.countP fun entity => entity.2 != ""

def producedEmbeddings (cfg : VectorSettings) (embed : Embed) (store : List (String × String)) :
    List (String × List Float32) :=
  (flushBatch embed (store.foldl (pushEntity cfg embed) {})).produced

def denseEmbeddings (cfg : VectorSettings) (produced : List (String × List Float32)) :
    DenseEmbeddings :=
  if cfg.enableVectorQuantization then
    .quantized (produced.map fun e => ⟨e.1, quantizeVector e.2⟩)
  else .float produced

/-- The payload of `save_embeddings`. -/
def cachePayload (cfg : VectorSettings) (embeddings : DenseEmbeddings) : CachedEmbeddings :=
  match embeddings with
  | .float values =>
      ⟨rkyvSchemaVersion, cfg.modelName, cfg.manifestHash, values.map Prod.fst,
        values.map Prod.snd, false⟩
  | .quantized values =>
      ⟨rkyvSchemaVersion, cfg.modelName, cfg.manifestHash, values.map (·.id),
        values.map fun e => e.values.map f32OfI8, true⟩

/-- A start without a cache: the vectors it serves and the file it saves. `none`
where `refuse_incomplete_cache_build` disables the component or fails. -/
def buildFresh (cfg : VectorSettings) (embed : Embed) (store : List (String × String)) :
    Option (DenseEmbeddings × CachedEmbeddings) :=
  let produced := producedEmbeddings cfg embed store
  if produced.length = embeddableEntityCount store then
    let embeddings := denseEmbeddings cfg produced
    some (embeddings, cachePayload cfg embeddings)
  else none

/-! ## Loading -/

inductive EmbeddingsCacheFailure where
  | schemaVersion (expected actual : ℕ)
  | modelName (expected actual : String)
  | manifestHash (expected actual : String)
  | entryShape (ids embeddings : ℕ)
  | entryCount (expected actual : ℕ)
  deriving DecidableEq

def validateCache (cache : CachedEmbeddings) (expectedModel expectedHash : String)
    (expectedEntries : Option ℕ) : Except EmbeddingsCacheFailure Unit :=
  if cache.schemaVersion ≠ rkyvSchemaVersion then
    .error (.schemaVersion rkyvSchemaVersion cache.schemaVersion)
  else if cache.modelName ≠ expectedModel then
    .error (.modelName expectedModel cache.modelName)
  else if cache.manifestHash ≠ expectedHash then
    .error (.manifestHash expectedHash cache.manifestHash)
  else if cache.entityIds.length ≠ cache.denseEmbeddings.length then
    .error (.entryShape cache.entityIds.length cache.denseEmbeddings.length)
  else
    match expectedEntries with
    | some expected =>
        if cache.entityIds.length ≠ expected then
          .error (.entryCount expected cache.entityIds.length)
        else .ok ()
    | none => .ok ()

/-- The vectors a start takes from a cache that it accepts. -/
def restoreEmbeddings (cache : CachedEmbeddings) : DenseEmbeddings :=
  if cache.isQuantized then
    .quantized ((cache.entityIds.zip cache.denseEmbeddings).map fun e =>
      ⟨e.1, quantizeVector e.2⟩)
  else .float (cache.entityIds.zip cache.denseEmbeddings)

def startFromCache (cfg : VectorSettings) (store : List (String × String))
    (cache : CachedEmbeddings) : Except EmbeddingsCacheFailure DenseEmbeddings := do
  validateCache cache cfg.modelName cfg.manifestHash (some (embeddableEntityCount store))
  .ok (restoreEmbeddings cache)

/-! ## Ranking -/

def dotProduct (a b : List Float32) : Float32 :=
  (a.zip b).foldl (fun sum p => sum + p.1 * p.2) (f32OfInt 0)

/-- `(acc as f32) * (QUANT_SCALE * QUANT_SCALE)`. -/
def dotProductI8 (a b : List Int8) : Float32 :=
  let acc : Int32 := (a.zip b).foldl (fun sum p => sum + p.1.toInt32 * p.2.toInt32) 0
  let scale := f32OfInt 1 / f32OfInt 127
  f32OfInt acc.toInt * (scale * scale)

/-- `score_desc_cmp`: better scores first, then the smaller index; a score that is
not finite counts as the least. -/
def scoredBefore (a b : ℕ × Float32) : Bool :=
  let key (x : Float32) : ℤ := if x.isFinite then totalKey x else totalKey (-(f32OfInt 1 / f32OfInt 0))
  decide (key b.2 < key a.2) || (key a.2 == key b.2 && decide (a.1 ≤ b.1))

def topKScored (scored : List (ℕ × Float32)) (topK : ℕ) : List (ℕ × Float32) :=
  (scored.insertionSort fun a b => scoredBefore a b).take topK

/-- The ranking of a normalized query vector. -/
def search (embeddings : DenseEmbeddings) (query : List Float32) (topK : ℕ) :
    List (String × Float32) :=
  match embeddings with
  | .float values =>
      (topKScored (values.zipIdx.map fun e => (e.2, dotProduct query e.1.2)) topK).filterMap
        fun s => values[s.1]?.map fun e => (e.1, s.2)
  | .quantized values =>
      let queryI8 := quantizeVector query
      (topKScored (values.zipIdx.map fun e => (e.2, dotProductI8 queryI8 e.1.values)) topK).filterMap
        fun s => values[s.1]?.map fun e => (e.id, s.2)

/-! ## The round trip -/

/-- A byte that scaling by 127, rounding and clamping leave alone. -/
def SurvivesRescaling (k : Int8) : Prop := k = -127 ∨ k = 0 ∨ k = 127

instance (k : Int8) : Decidable (SurvivesRescaling k) :=
  inferInstanceAs (Decidable (k = -127 ∨ k = 0 ∨ k = 127))

theorem rescale_byte : ∀ n : Fin 256,
    quantizeComponent (f32OfI8 (.ofBitVec (.ofFin n))) = .ofBitVec (.ofFin n) ↔
      SurvivesRescaling (.ofBitVec (.ofFin n)) := by
  decide +kernel

/-- A saved byte is quantized a second time when it is loaded. -/
theorem quantizeComponent_widened (k : Int8) :
    quantizeComponent (f32OfI8 k) = k ↔ SurvivesRescaling k :=
  rescale_byte k.toBitVec.toFin

theorem quantizeVector_widened (values : List Int8) :
    quantizeVector (values.map f32OfI8) = values ↔ ∀ k ∈ values, SurvivesRescaling k := by
  induction values with
  | nil => simp [quantizeVector]
  | cons k values ih =>
      simp only [quantizeVector, List.map_cons, List.cons.injEq, List.forall_mem_cons] at ih ⊢
      rw [quantizeComponent_widened, ih]

/-- The vectors of a list that a start computed come back unchanged. -/
def Survives : DenseEmbeddings → Prop
  | .float _ => True
  | .quantized values => ∀ e ∈ values, ∀ k ∈ e.values, SurvivesRescaling k

instance : DecidablePred Survives
  | .float _ => .isTrue trivial
  | .quantized values =>
      inferInstanceAs (Decidable (∀ e ∈ values, ∀ k ∈ e.values, SurvivesRescaling k))

theorem requantized_eq_iff (values : List QuantizedEmbedding) :
    values.map (fun e => (⟨e.id, quantizeVector (e.values.map f32OfI8)⟩ : QuantizedEmbedding)) =
        values ↔
      ∀ e ∈ values, ∀ k ∈ e.values, SurvivesRescaling k := by
  induction values with
  | nil => simp
  | cons e values ih =>
      simp only [List.map_cons, List.cons.injEq, List.forall_mem_cons, ih]
      rw [← quantizeVector_widened e.values]
      constructor
      · intro h
        exact ⟨congrArg QuantizedEmbedding.values h.1, h.2⟩
      · intro h
        exact ⟨by rw [h.1], h.2⟩

theorem restoreEmbeddings_payload_iff (cfg : VectorSettings) (embeddings : DenseEmbeddings) :
    restoreEmbeddings (cachePayload cfg embeddings) = embeddings ↔ Survives embeddings := by
  cases embeddings with
  | float values =>
      have hzip : (values.map Prod.fst).zip (values.map Prod.snd) = values := by
        rw [List.zip_map']
        exact List.map_id values
      simp [restoreEmbeddings, cachePayload, Survives, hzip]
  | quantized values =>
      have hzip : ((values.map (·.id)).zip (values.map fun e => e.values.map f32OfI8)).map
          (fun e => (⟨e.1, quantizeVector e.2⟩ : QuantizedEmbedding)) =
          values.map fun e => ⟨e.id, quantizeVector (e.values.map f32OfI8)⟩ := by
        rw [List.zip_map', List.map_map]
        rfl
      simp only [restoreEmbeddings, cachePayload, if_true, hzip, DenseEmbeddings.quantized.injEq]
      exact requantized_eq_iff values

/-- The number of vectors in a list of either kind. -/
def DenseEmbeddings.length : DenseEmbeddings → ℕ
  | .float values => values.length
  | .quantized values => values.length

/-- A start accepts the file of a complete build for its own model and manifest. -/
theorem startFromCache_payload (cfg : VectorSettings) {store : List (String × String)}
    {embeddings : DenseEmbeddings} (h : embeddings.length = embeddableEntityCount store) :
    startFromCache cfg store (cachePayload cfg embeddings) =
      .ok (restoreEmbeddings (cachePayload cfg embeddings)) := by
  cases embeddings with
  | float values =>
      have hlen : values.length = embeddableEntityCount store := h
      simp [startFromCache, validateCache, cachePayload, hlen, bind, Except.bind]
  | quantized values =>
      have hlen : values.length = embeddableEntityCount store := h
      simp [startFromCache, validateCache, cachePayload, hlen, bind, Except.bind]

theorem denseEmbeddings_length (cfg : VectorSettings) (produced : List (String × List Float32)) :
    (denseEmbeddings cfg produced).length = produced.length := by
  unfold denseEmbeddings
  cases cfg.enableVectorQuantization with
  | true => exact List.length_map _
  | false => rfl

/-- The restart serves the vectors that the first start computed, and so ranks every
query alike, exactly when no byte of them changes under a second scaling. -/
theorem cache_roundtrip_iff (cfg : VectorSettings) (embed : Embed)
    (store : List (String × String)) {embeddings : DenseEmbeddings} {cache : CachedEmbeddings}
    (h : buildFresh cfg embed store = some (embeddings, cache)) :
    startFromCache cfg store cache = .ok embeddings ↔ Survives embeddings := by
  unfold buildFresh at h
  simp only [Option.ite_none_right_eq_some, Option.some.injEq, Prod.mk.injEq] at h
  obtain ⟨hcomplete, rfl, rfl⟩ := h
  have hlen := (denseEmbeddings_length cfg (producedEmbeddings cfg embed store)).trans hcomplete
  rw [startFromCache_payload cfg hlen, Except.ok.injEq]
  exact restoreEmbeddings_payload_iff cfg _

def quantizedSettings : VectorSettings := ⟨"e5", "abc123", 32, true⟩

/-- Two entities whose texts are embedded along the axes. -/
def axisEmbed : Embed := fun texts =>
  .ok (texts.map fun text =>
    if text = "orders" then [f32OfInt 2, f32OfInt 0] else [f32OfInt 0, f32OfInt (-2)])

def twoEntities : List (String × String) := [("model.orders", "orders"), ("model.users", "users")]

theorem axis_roundtrip :
    ∃ embeddings cache, buildFresh quantizedSettings axisEmbed twoEntities =
        some (embeddings, cache) ∧
      startFromCache quantizedSettings twoEntities cache = .ok embeddings := by
  let embeddings : DenseEmbeddings :=
    .quantized [⟨"model.orders", [127, 0]⟩, ⟨"model.users", [0, -127]⟩]
  have hbuild : buildFresh quantizedSettings axisEmbed twoEntities =
      some (embeddings, cachePayload quantizedSettings embeddings) := by decide +kernel
  refine ⟨_, _, hbuild, ?_⟩
  exact (cache_roundtrip_iff quantizedSettings axisEmbed twoEntities hbuild).mpr
    (by decide +kernel)

/-- One vector close to an axis, the other between the two. -/
def skewEmbed : Embed := fun texts =>
  .ok (texts.map fun text =>
    if text = "orders" then [f32OfInt 50, f32OfInt 1] else [f32OfInt 4, f32OfInt 3])

/-- After a restart the small component of the first vector is as large as any, and
the first entity overtakes the second. -/
theorem skew_roundtrip_lossy :
    ¬ ∀ (cfg : VectorSettings) (embed : Embed) (store : List (String × String))
      (embeddings : DenseEmbeddings) (cache : CachedEmbeddings),
      buildFresh cfg embed store = some (embeddings, cache) →
        ∃ restored, startFromCache cfg store cache = .ok restored ∧ restored = embeddings ∧
          ∀ query topK, search restored query topK = search embeddings query topK := by
  intro h
  let embeddings : DenseEmbeddings :=
    .quantized [⟨"model.orders", [127, 3]⟩, ⟨"model.users", [102, 76]⟩]
  have hbuild : buildFresh quantizedSettings skewEmbed twoEntities =
      some (embeddings, cachePayload quantizedSettings embeddings) := by decide +kernel
  obtain ⟨restored, hrestored, _, hsearch⟩ := h _ _ _ _ _ hbuild
  have hload : startFromCache quantizedSettings twoEntities
      (cachePayload quantizedSettings embeddings) =
      .ok (.quantized [⟨"model.orders", [127, 127]⟩, ⟨"model.users", [127, 127]⟩]) := by
    decide
  rw [hload] at hrestored
  obtain rfl := Except.ok.inj hrestored
  have hquery := hsearch [f32OfInt 0, f32OfInt 1] 1
  exact absurd hquery (by decide +kernel)

end DbtNova.VectorCache
