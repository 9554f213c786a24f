import DbtNova.BitFlips
import DbtNova.Text
import DbtNova.VectorCache

/-!
# Approximate vector search

`AnnIndex` puts every embedding in the bucket of its signature, the sides of some hyperplanes on
which the vector lies. A query looks into the buckets whose signatures differ from its own in few
bits, and `VectorSearcher::search` scores what it finds there; too few candidates make it score
every embedding.

How the processor sums a dot product, which hyperplanes the hash of the dimensions gives and how
`select_nth_unstable_by` orders what it leaves unspecified are parameters.
-/
namespace DbtNova.AnnSearch
open BitFlips VectorCache

/-! ## The index -/

structure AnnConfig where
  enableVectorAnn : Bool := true
  vectorAnnBits : ℕ := 16
  vectorAnnHamming : ℕ := 1
  vectorAnnMaxCandidates : ℕ := 5000
  vectorAnnMinCandidates : ℕ := 200

/-- A selection puts the first `k` entries of the sorted list in front, in any order. -/
structure Selection {α : Type*} (before : α → α → Bool) where
  selectNth : ℕ → List α → List α
  perm : ∀ k l, (selectNth k l).Perm l
  split : ∀ k l, k < l.length → ∀ a ∈ (selectNth k l).take k, ∀ b ∈ (selectNth k l).drop k,
    before a b = true

structure Machine where
  dotProduct : List Float32 → List Float32 → Float32
  generateHyperplanes : ℕ → ℕ → List (List Float32)
  selection : Selection scoredBefore

abbrev Signature := BitVec 64

structure AnnIndex where
  hyperplanes : List (List Float32)
  /-- A signature without an entry has an empty bucket. -/
  buckets : Signature → List ℕ
  bits : ℕ
  maxCandidates : ℕ
  minCandidates : ℕ
  hamming : ℕ

def signature (dot : List Float32 → Float32) (hyperplanes : List (List Float32)) : Signature :=
  hyperplanes.zipIdx.foldl
    (fun sig plane => if f32OfInt 0 ≤ dot plane.1 then sig ||| 1#64 <<< plane.2 else sig) 0#64

def signatureF32 (m : Machine) (vec : List Float32) (hyperplanes : List (List Float32)) :
    Signature :=
  signature (m.dotProduct vec) hyperplanes

def signatureI8 (vec : List Int8) (hyperplanes : List (List Float32)) : Signature :=
  signature
    (fun plane => (vec.zip plane).foldl
      (fun dot p => dot + f32OfI8 p.1 * (f32OfInt 1 / f32OfInt 127) * p.2) (f32OfInt 0))
    hyperplanes

def validateHyperplanes (hyperplanes : List (List Float32)) (bits dim : ℕ) :
    Option (List (List Float32)) :=
  if hyperplanes.length ≠ bits then none
  else if hyperplanes.any fun plane => plane.length != dim then none
  else some hyperplanes

def annBits (config : AnnConfig) : ℕ := max 4 (min config.vectorAnnBits 63)

def fillBuckets (signatures : List Signature) : Signature → List ℕ :=
  signatures.zipIdx.foldl
    (fun buckets e => Function.update buckets e.1 (buckets e.1 ++ [e.2])) fun _ => []

section Build
variable {α : Type*} (dim : α → ℕ) (sign : α → List (List Float32) → Signature)

def buildWithHyperplanes (embeddings : List α) (config : AnnConfig)
    (hyperplanes : List (List Float32)) : Option AnnIndex :=
  if !config.enableVectorAnn || embeddings.isEmpty then none
  else
    (validateHyperplanes hyperplanes (annBits config) (embeddings.head?.elim 0 dim)).map
      fun hyperplanes =>
        { hyperplanes
          buckets := fillBuckets (embeddings.map fun e => sign e hyperplanes)
          bits := annBits config
          maxCandidates := max config.vectorAnnMaxCandidates 1
          minCandidates := config.vectorAnnMinCandidates
          hamming := min config.vectorAnnHamming (annBits config) }

def build (m : Machine) (embeddings : List α) (config : AnnConfig) : Option AnnIndex :=
  if !config.enableVectorAnn || embeddings.isEmpty then none
  else if embeddings.head?.elim 0 dim = 0 then none
  else
    buildWithHyperplanes dim sign embeddings config
      (m.generateHyperplanes (annBits config) (embeddings.head?.elim 0 dim))

end Build

def buildF32WithHyperplanes (m : Machine) :
    List (String × List Float32) → AnnConfig → List (List Float32) → Option AnnIndex :=
  buildWithHyperplanes (fun e => e.2.length) fun e => signatureF32 m e.2

def buildF32 (m : Machine) : List (String × List Float32) → AnnConfig → Option AnnIndex :=
  build (fun e => e.2.length) (fun e => signatureF32 m e.2) m

def buildQuantizedWithHyperplanes :
    List QuantizedEmbedding → AnnConfig → List (List Float32) → Option AnnIndex :=
  buildWithHyperplanes (fun e => e.values.length) fun e => signatureI8 e.values

def buildQuantized (m : Machine) : List QuantizedEmbedding → AnnConfig → Option AnnIndex :=
  build (fun e => e.values.length) (fun e => signatureI8 e.values) m

/-! ## Probing -/

namespace AnnIndex
variable (ann : AnnIndex)

/-- Whether the candidates are as many as there may be, and the candidates. -/
def pushIds : List ℕ → List ℕ → Bool × List ℕ
  | [], candidates => (false, candidates)
  | id :: ids, candidates =>
      if id ∈ candidates then pushIds ids candidates
      else if ann.maxCandidates ≤ (candidates ++ [id]).length then (true, candidates ++ [id])
      else pushIds ids (candidates ++ [id])

def pushBucket (bucket : Signature) (candidates : List ℕ) : Bool × List ℕ :=
  ann.pushIds (ann.buckets bucket) candidates

/-- The buckets in the order of the loops. -/
def probes (sig : Signature) : List Signature :=
  sig ::
    (if 1 ≤ ann.hamming then (List.range ann.bits).map (flipBit sig) else []) ++
    (if 2 ≤ ann.hamming then
      (List.range ann.bits).flatMap fun i =>
        (List.range' (i + 1) (ann.bits - (i + 1))).map (flipBit (flipBit sig i))
    else [])

/-- Every loop returns as soon as a bucket fills the candidates. -/
def pushBuckets : List Signature → List ℕ → Bool × List ℕ
  | [], candidates => (false, candidates)
  | bucket :: buckets, candidates =>
      let pushed := ann.pushBucket bucket candidates
      if pushed.1 then pushed else pushBuckets buckets pushed.2

/-- A product that would saturate is longer than any list, and so is the saturated one. -/
def minNeeded (topK : ℕ) : ℕ := max ann.minCandidates (topK * 4)

def candidatesForSignature (sig : Signature) (topK : ℕ) : Option (List ℕ) :=
  let pushed := ann.pushBuckets (ann.probes sig) []
  if pushed.1 then some pushed.2
  else if pushed.2.length < ann.minNeeded topK then none
  else some pushed.2

def candidatesF32 (m : Machine) (queryVec : List Float32) (topK : ℕ) : Option (List ℕ) :=
  ann.candidatesForSignature (signatureF32 m queryVec ann.hyperplanes) topK

def candidatesI8 (queryVec : List Int8) (topK : ℕ) : Option (List ℕ) :=
  ann.candidatesForSignature (signatureI8 queryVec ann.hyperplanes) topK

end AnnIndex

/-! ## The search -/

structure VectorSearcher where
  embeddings : DenseEmbeddings
  ann : Option AnnIndex

/-- A start with the hyperplanes of a cached index, if there are any. -/
def VectorSearcher.start (m : Machine) (config : AnnConfig)
    (cachedHyperplanes : Option (List (List Float32))) (embeddings : DenseEmbeddings) :
    VectorSearcher where
  embeddings := embeddings
  ann :=
    match embeddings with
    | .float values =>
        (cachedHyperplanes.bind (buildF32WithHyperplanes m values config)).or
          (buildF32 m values config)
    | .quantized values =>
        (cachedHyperplanes.bind (buildQuantizedWithHyperplanes values config)).or
          (buildQuantized m values config)

def topKScored (selection : Selection scoredBefore) (scored : List (ℕ × Float32)) (topK : ℕ) :
    List (ℕ × Float32) :=
  if topK = 0 ∨ scored = [] then []
  else
    let selected :=
      if topK < scored.length then (selection.selectNth topK scored).take topK else scored
    selected.insertionSort fun a b => scoredBefore a b

section Rank
variable {α : Type*}

def scoreCandidates (values : List α) (score : α → Float32) :
    Option (List ℕ) → List (ℕ × Float32)
  | some candidates =>
      candidates.filterMap fun idx => values[idx]?.map fun value => (idx, score value)
  | none => values.zipIdx.map fun e => (e.2, score e.1)

def rankedIds (m : Machine) (values : List α) (id : α → String) (score : α → Float32)
    (candidates : Option (List ℕ)) (topK : ℕ) : List (String × Float32) :=
  (topKScored m.selection (scoreCandidates values score candidates) topK).filterMap fun s =>
    values[s.1]?.map fun value => (id value, s.2)

end Rank

def VectorSearcher.rank (m : Machine) (searcher : VectorSearcher) (queryVec : List Float32)
    (topK : ℕ) : List (String × Float32) :=
  match searcher.embeddings with
  | .float values =>
      rankedIds m values Prod.fst (fun value => m.dotProduct queryVec value.2)
        (searcher.ann.bind fun ann => ann.candidatesF32 m queryVec topK) topK
  | .quantized values =>
      let queryI8 := quantizeVector queryVec
      rankedIds m values (·.id) (fun value => dotProductI8 queryI8 value.values)
        (searcher.ann.bind fun ann => ann.candidatesI8 queryI8 topK) topK

/-- The vector of a query; none for a blank query and where the model gives none. -/
def queryVector (embed : Embed) (query : String) : Result (Option (List Float32)) :=
  if Text.trim query = "" then .ok none
  else do
    let vecs ← embed [query]
    let queryVec := vecs.getLast?.getD []
    .ok (if queryVec = [] then none else some (normalizeVector queryVec))

def VectorSearcher.search (m : Machine) (searcher : VectorSearcher) (embed : Embed)
    (query : String) (topK : ℕ) : Result (List (String × Float32)) := do
  let queryVec ← queryVector embed query
  .ok (queryVec.elim [] fun queryVec => searcher.rank m queryVec topK)

/-! ## What is found -/

/-- The indices of the signatures within this many bits of the query's. -/
def within (signatures : List Signature) (sig : Signature) (radius : ℕ) : List ℕ :=
  (signatures.zipIdx.filter fun e => bitDistance e.1 sig ≤ radius).map Prod.snd

section Found
variable {signatures : List Signature} {sig : Signature} {radius i : ℕ}

theorem mem_within :
    i ∈ within signatures sig radius ↔
      ∃ s, signatures[i]? = some s ∧ bitDistance s sig ≤ radius := by
  unfold within
  simp only [List.mem_map, List.mem_filter, decide_eq_true_eq]
  constructor
  · intro h
    obtain ⟨⟨s, j⟩, ⟨hs, hnear⟩, rfl⟩ := h
    exact ⟨s, List.mem_zipIdx_iff_getElem?.mp hs, hnear⟩
  · intro h
    obtain ⟨s, hs, hnear⟩ := h
    exact ⟨(s, i), ⟨List.mem_zipIdx_iff_getElem?.mpr hs, hnear⟩, rfl⟩

theorem within_nodup (signatures : List Signature) (sig : Signature) (radius : ℕ) :
    (within signatures sig radius).Nodup := by
  have hindices : (signatures.zipIdx.map Prod.snd).Nodup := by
    rw [List.zipIdx_map_snd]
    exact List.nodup_range'
  exact hindices.sublist (List.filter_sublist.map Prod.snd)

theorem within_lt (h : i ∈ within signatures sig radius) : i < signatures.length := by
  obtain ⟨s, hs, -⟩ := mem_within.mp h
  exact (List.getElem?_eq_some_iff.mp hs).1

theorem mem_fillBuckets :
    i ∈ fillBuckets signatures sig ↔ signatures[i]? = some sig := by
  have hfold : ∀ (entries : List (Signature × ℕ)) (buckets : Signature → List ℕ),
      i ∈ (entries.foldl (fun (buckets : Signature → List ℕ) e =>
          Function.update buckets e.1 (buckets e.1 ++ [e.2])) buckets) sig ↔
        i ∈ buckets sig ∨ (sig, i) ∈ entries := by
    intro entries
    induction entries with
    | nil => simp
    | cons e entries ih =>
        intro buckets
        obtain ⟨s, j⟩ := e
        rw [List.foldl_cons, ih, List.mem_cons, Prod.mk.injEq, ← or_assoc]
        apply or_congr_left
        by_cases hs : sig = s
        · subst hs
          simp
        · simp [hs]
  unfold fillBuckets
  rw [hfold, List.mem_zipIdx_iff_getElem?]
  simp

/-- A signature has no bits above its hyperplanes. -/
theorem getLsbD_signature {dot : List Float32 → Float32} {hyperplanes : List (List Float32)}
    (h : hyperplanes.length ≤ i) : (signature dot hyperplanes).getLsbD i = false := by
  have hfold : ∀ (planes : List (List Float32)) (start : ℕ) (s : Signature),
      start + planes.length ≤ i →
      ((planes.zipIdx start).foldl
        (fun sig plane => if f32OfInt 0 ≤ dot plane.1 then sig ||| 1#64 <<< plane.2 else sig)
        s).getLsbD i = s.getLsbD i := by
    intro planes
    induction planes with
    | nil => intro start s _; rfl
    | cons plane planes ih =>
        intro start s hlen
        rw [List.length_cons] at hlen
        rw [List.zipIdx_cons, List.foldl_cons, ih (start + 1) _ (by omega)]
        split
        · have hbit : (1#64 <<< start).getLsbD i = false := by
            simp
            omega
          rw [BitVec.getLsbD_or, hbit, Bool.or_false]
        · rfl
  unfold signature
  rw [hfold hyperplanes 0 _ (by omega)]
  exact BitVec.getLsbD_zero

end Found

/-- What probing gathers: candidates that are wanted, each once, up to the limit or all. -/
structure Gathered (limit : ℕ) (wanted : ℕ → Prop) (out : Bool × List ℕ) : Prop where
  nodup : out.2.Nodup
  found : ∀ i ∈ out.2, wanted i
  full : out.1 = true → out.2.length = limit
  rest : out.1 = false → out.2.length < limit ∧ ∀ i, wanted i → i ∈ out.2

theorem Gathered.congr {limit : ℕ} {p q : ℕ → Prop} {out : Bool × List ℕ}
    (h : Gathered limit p out) (hpq : ∀ i, p i ↔ q i) : Gathered limit q out := by
  refine ⟨h.nodup, fun i hi => (hpq i).mp (h.found i hi), h.full, ?_⟩
  intro hrest
  exact ⟨(h.rest hrest).1, fun i hi => (h.rest hrest).2 i ((hpq i).mpr hi)⟩

namespace AnnIndex
variable {ann : AnnIndex} {candidates : List ℕ}

theorem pushIds_gathered {ids : List ℕ} (hnodup : candidates.Nodup)
    (hroom : candidates.length < ann.maxCandidates) :
    Gathered ann.maxCandidates (fun i => i ∈ candidates ∨ i ∈ ids)
      (ann.pushIds ids candidates) := by
  induction ids generalizing candidates with
  | nil =>
      refine ⟨hnodup, fun i hi => Or.inl hi, fun h => absurd h Bool.false_ne_true,
        fun _ => ⟨hroom, ?_⟩⟩
      intro i hi
      exact hi.resolve_right List.not_mem_nil
  | cons id ids ih =>
      have hlength : (candidates ++ [id]).length = candidates.length + 1 := by simp
      unfold pushIds
      split
      · rename_i hmem
        apply (ih hnodup hroom).congr
        intro i
        rw [List.mem_cons]
        constructor
        · rintro (hi | hi)
          · exact Or.inl hi
          · exact Or.inr (Or.inr hi)
        · rintro (hi | rfl | hi)
          · exact Or.inl hi
          · exact Or.inl hmem
          · exact Or.inr hi
      · rename_i hnew
        have hnext : (candidates ++ [id]).Nodup := by
          rw [List.nodup_append_comm]
          exact List.nodup_cons.mpr ⟨hnew, hnodup⟩
        split
        · rename_i hfull
          have hlimit : (candidates ++ [id]).length = ann.maxCandidates := by omega
          refine ⟨hnext, ?_, fun _ => hlimit, fun h => absurd h.symm Bool.false_ne_true⟩
          intro i hi
          rcases List.mem_append.mp hi with hi | hi
          · exact Or.inl hi
          · rw [List.mem_singleton.mp hi]
            exact Or.inr List.mem_cons_self
        · rename_i hopen
          apply (ih hnext (by omega)).congr
          intro i
          rw [List.mem_append, List.mem_singleton, List.mem_cons, or_assoc]

theorem pushBuckets_gathered {buckets : List Signature} (hnodup : candidates.Nodup)
    (hroom : candidates.length < ann.maxCandidates) :
    Gathered ann.maxCandidates
      (fun i => i ∈ candidates ∨ ∃ bucket ∈ buckets, i ∈ ann.buckets bucket)
      (ann.pushBuckets buckets candidates) := by
  induction buckets generalizing candidates with
  | nil =>
      refine ⟨hnodup, fun i hi => Or.inl hi, fun h => absurd h Bool.false_ne_true,
        fun _ => ⟨hroom, ?_⟩⟩
      intro i hi
      exact hi.resolve_right fun h => by simp at h
  | cons bucket buckets ih =>
      have hpushed : Gathered ann.maxCandidates
          (fun i => i ∈ candidates ∨ i ∈ ann.buckets bucket) (ann.pushBucket bucket candidates) :=
        pushIds_gathered hnodup hroom
      unfold pushBuckets
      dsimp only
      split
      · rename_i hfull
        refine ⟨hpushed.nodup, ?_, hpushed.full, fun h => by rw [hfull] at h; contradiction⟩
        intro i hi
        exact (hpushed.found i hi).imp_right fun h => ⟨bucket, List.mem_cons_self, h⟩
      · rename_i hopen
        obtain ⟨hlt, hall⟩ := hpushed.rest (Bool.eq_false_iff.mpr hopen)
        have hsame : ∀ i, i ∈ (ann.pushBucket bucket candidates).2 ↔
            i ∈ candidates ∨ i ∈ ann.buckets bucket :=
          fun i => ⟨hpushed.found i, hall i⟩
        apply (ih hpushed.nodup hlt).congr
        intro i
        rw [hsame, or_assoc]
        simp only [List.mem_cons, exists_eq_or_imp]

theorem mem_probes {sig s : Signature} :
    s ∈ ann.probes sig ↔ s = sig ∨ (1 ≤ ann.hamming ∧ ∃ i < ann.bits, flipBit sig i = s) ∨
      (2 ≤ ann.hamming ∧ ∃ i j, i < j ∧ j < ann.bits ∧ flipBit (flipBit sig i) j = s) := by
  have hone : s ∈ (if 1 ≤ ann.hamming then (List.range ann.bits).map (flipBit sig) else []) ↔
      1 ≤ ann.hamming ∧ ∃ i < ann.bits, flipBit sig i = s := by
    split
    · rename_i h
      simp [h]
    · rename_i h
      simp [h]
  have htwo : s ∈ (if 2 ≤ ann.hamming then
      (List.range ann.bits).flatMap fun i =>
        (List.range' (i + 1) (ann.bits - (i + 1))).map (flipBit (flipBit sig i))
      else []) ↔
      2 ≤ ann.hamming ∧ ∃ i j, i < j ∧ j < ann.bits ∧ flipBit (flipBit sig i) j = s := by
    split
    · rename_i h
      simp only [List.mem_flatMap, List.mem_range, List.mem_map, List.mem_range'_1, h, true_and]
      constructor
      · rintro ⟨i, hi, j, ⟨hij, hj⟩, hs⟩
        exact ⟨i, j, by omega, by omega, hs⟩
      · rintro ⟨i, j, hij, hj, hs⟩
        exact ⟨i, by omega, j, ⟨by omega, by omega⟩, hs⟩
    · rename_i h
      simp [h]
  unfold probes
  rw [List.cons_append, List.mem_cons, List.mem_append, hone, htwo]

/-- Every signature within the radius is probed, as long as the radius is at most two. -/
theorem mem_probes_iff {sig s : Signature} (hbits : ann.bits ≤ 64)
    (hsame : ∀ k ≥ ann.bits, sig.getLsbD k = s.getLsbD k) :
    s ∈ ann.probes sig ↔ bitDistance s sig ≤ min ann.hamming 2 := by
  have hone : (∃ i < ann.bits, flipBit sig i = s) ↔ bitDistance sig s = 1 := by
    rw [bitDistance_eq_one_iff]
    constructor
    · rintro ⟨i, hi, hs⟩
      exact ⟨i, by omega, hs⟩
    · rintro ⟨i, hi, rfl⟩
      refine ⟨i, getLsbD_lt hsame ?_, rfl⟩
      rw [getLsbD_flipBit_self hi]
      simp
  have htwo : (∃ i j, i < j ∧ j < ann.bits ∧ flipBit (flipBit sig i) j = s) ↔
      bitDistance sig s = 2 := by
    rw [bitDistance_eq_two_iff]
    constructor
    · rintro ⟨i, j, hij, hj, hs⟩
      exact ⟨i, j, hij, by omega, hs⟩
    · rintro ⟨i, j, hij, hj, rfl⟩
      refine ⟨i, j, hij, getLsbD_lt hsame ?_, rfl⟩
      rw [getLsbD_flipBit_self hj, getLsbD_flipBit_ne hij.ne]
      simp
  have hzero : s = sig ↔ bitDistance sig s = 0 := by
    rw [bitDistance_eq_zero_iff]
    exact eq_comm
  rw [mem_probes, hone, htwo, hzero, bitDistance_comm s sig]
  omega

/-- The index holds these signatures and probes as far as this radius asks, up to two bits. -/
structure Holds (ann : AnnIndex) (signatures : List Signature) (radius : ℕ) : Prop where
  buckets : ann.buckets = fillBuckets signatures
  bits_le : ann.bits ≤ 64
  low : ∀ s ∈ signatures, ∀ k ≥ ann.bits, s.getLsbD k = false
  limit_pos : 0 < ann.maxCandidates
  hamming : min ann.hamming 2 = min radius 2

variable {signatures : List Signature} {sig : Signature} {radius : ℕ}

theorem Holds.gathered (h : ann.Holds signatures radius)
    (hsig : ∀ k ≥ ann.bits, sig.getLsbD k = false) :
    Gathered ann.maxCandidates (fun i => i ∈ within signatures sig (min radius 2))
      (ann.pushBuckets (ann.probes sig) []) := by
  apply (pushBuckets_gathered List.nodup_nil h.limit_pos).congr
  intro i
  rw [or_iff_right List.not_mem_nil, mem_within, h.buckets]
  simp only [mem_fillBuckets]
  constructor
  · rintro ⟨s, hprobe, hs⟩
    have hlow := h.low s (List.mem_of_getElem? hs)
    rw [mem_probes_iff h.bits_le fun k hk => (hsig k hk).trans (hlow k hk).symm, h.hamming]
      at hprobe
    exact ⟨s, hs, hprobe⟩
  · rintro ⟨s, hs, hnear⟩
    have hlow := h.low s (List.mem_of_getElem? hs)
    refine ⟨s, ?_, hs⟩
    rw [mem_probes_iff h.bits_le fun k hk => (hsig k hk).trans (hlow k hk).symm, h.hamming]
    exact hnear

/-- Probing stops at the limit, gives up with too few candidates, or finds all that it can. -/
theorem Holds.candidates_cases (h : ann.Holds signatures radius)
    (hsig : ∀ k ≥ ann.bits, sig.getLsbD k = false) (topK : ℕ) :
    (ann.maxCandidates ≤ (within signatures sig (min radius 2)).length ∧
      ∃ candidates, ann.candidatesForSignature sig topK = some candidates ∧ candidates.Nodup ∧
        candidates ⊆ within signatures sig (min radius 2) ∧
        candidates.length = ann.maxCandidates) ∨
    ((within signatures sig (min radius 2)).length < ann.maxCandidates ∧
      (within signatures sig (min radius 2)).length < ann.minNeeded topK ∧
      ann.candidatesForSignature sig topK = none) ∨
    ((within signatures sig (min radius 2)).length < ann.maxCandidates ∧
      ann.minNeeded topK ≤ (within signatures sig (min radius 2)).length ∧
      ∃ candidates, ann.candidatesForSignature sig topK = some candidates ∧
        candidates.Perm (within signatures sig (min radius 2))) := by
  have hgathered := h.gathered hsig
  have hnear := within_nodup signatures sig (min radius 2)
  unfold candidatesForSignature
  dsimp only
  generalize ann.pushBuckets (ann.probes sig) [] = pushed at hgathered
  cases hfull : pushed.1 with
  | true =>
      refine Or.inl ⟨?_, pushed.2, if_pos rfl, hgathered.nodup, hgathered.found,
        hgathered.full hfull⟩
      rw [← hgathered.full hfull]
      exact (hgathered.nodup.subperm hgathered.found).length_le
  | false =>
      obtain ⟨hroom, hall⟩ := hgathered.rest hfull
      have hperm : pushed.2.Perm (within signatures sig (min radius 2)) :=
        (List.perm_ext_iff_of_nodup hgathered.nodup hnear).mpr
          fun i => ⟨hgathered.found i, hall i⟩
      rw [← hperm.length_eq]
      by_cases hfew : pushed.2.length < ann.minNeeded topK
      · exact Or.inr (Or.inl ⟨hroom, hfew, by simp [hfew]⟩)
      · exact Or.inr (Or.inr ⟨hroom, Nat.le_of_not_lt hfew, pushed.2, by simp [hfew], hperm⟩)

end AnnIndex

/-! ## Completeness of the candidates -/

/-- The candidates are all within the radius or as many of them as there may be, each once; or
every embedding is scored. -/
def CandidatesComplete (signatures : List Signature) (sig : Signature) (radius limit : ℕ) :
    Option (List ℕ) → Prop
  | none => True
  | some candidates =>
      candidates.Nodup ∧
        ((∀ i ∈ within signatures sig radius, i ∈ candidates) ∨
          candidates.length = limit ∧ ∀ i ∈ candidates, i ∈ within signatures sig radius)

/-- No signature lies within the radius and more than two bits away; or probing two bits fills
the candidates, or finds too few. -/
def RadiusProbed (ann : AnnIndex) (signatures : List Signature) (sig : Signature)
    (radius topK : ℕ) : Prop :=
  (∀ i ∈ within signatures sig radius, i ∈ within signatures sig 2) ∨
    ann.maxCandidates ≤ (within signatures sig (min radius 2)).length ∨
    (within signatures sig (min radius 2)).length < ann.minNeeded topK

section Complete
variable {ann : AnnIndex} {signatures : List Signature} {sig : Signature} {radius i : ℕ}

theorem mem_within_min :
    i ∈ within signatures sig (min radius 2) ↔
      i ∈ within signatures sig radius ∧ i ∈ within signatures sig 2 := by
  simp only [mem_within]
  constructor
  · rintro ⟨s, hs, hnear⟩
    exact ⟨⟨s, hs, hnear.trans (Nat.min_le_left _ _)⟩, s, hs, hnear.trans (Nat.min_le_right _ _)⟩
  · rintro ⟨⟨s, hs, hradius⟩, t, ht, htwo⟩
    have heq : s = t := Option.some.inj (hs.symm.trans ht)
    subst heq
    exact ⟨s, hs, le_min hradius htwo⟩

theorem candidatesComplete_iff (h : ann.Holds signatures radius)
    (hsig : ∀ k ≥ ann.bits, sig.getLsbD k = false) (topK : ℕ) :
    CandidatesComplete signatures sig radius ann.maxCandidates
        (ann.candidatesForSignature sig topK) ↔
      RadiusProbed ann signatures sig radius topK := by
  unfold RadiusProbed
  rcases h.candidates_cases hsig topK with
    ⟨hcap, candidates, hc, hnodup, hsub, hlen⟩ | ⟨-, hfew, hc⟩ |
      ⟨hroom, hmany, candidates, hc, hperm⟩
  · rw [hc]
    apply iff_of_true
    · exact ⟨hnodup, Or.inr ⟨hlen, fun i hi => (mem_within_min.mp (hsub hi)).1⟩⟩
    · exact Or.inr (Or.inl hcap)
  · rw [hc]
    exact iff_of_true trivial (Or.inr (Or.inr hfew))
  · rw [hc, or_iff_left (by omega)]
    have hlen : candidates.length ≠ ann.maxCandidates := by
      rw [hperm.length_eq]
      omega
    constructor
    · intro hcomplete i hi
      have hall := hcomplete.2.resolve_right fun hlimit => hlen hlimit.1
      exact (mem_within_min.mp (hperm.mem_iff.mp (hall i hi))).2
    · intro htwo
      refine ⟨hperm.nodup_iff.mpr (within_nodup _ _ _), Or.inl ?_⟩
      intro i hi
      exact hperm.mem_iff.mpr (mem_within_min.mpr ⟨hi, htwo i hi⟩)

end Complete

/-! ## The best results -/

theorem scoredBefore_total (a b : ℕ × Float32) :
    scoredBefore a b = true ∨ scoredBefore b a = true := by
  simp only [scoredBefore, Bool.or_eq_true, Bool.and_eq_true, decide_eq_true_eq, beq_iff_eq]
  omega

theorem scoredBefore_trans {a b c : ℕ × Float32} (hab : scoredBefore a b = true)
    (hbc : scoredBefore b c = true) : scoredBefore a c = true := by
  simp only [scoredBefore, Bool.or_eq_true, Bool.and_eq_true, decide_eq_true_eq, beq_iff_eq]
    at hab hbc ⊢
  omega

/-- The best of some scored entries, best first, and what they leave. -/
structure Best (scored best : List (ℕ × Float32)) (topK : ℕ) : Prop where
  length : best.length = min topK scored.length
  sorted : best.Pairwise fun a b => scoredBefore a b = true
  front : ∃ rest, scored.Perm (best ++ rest) ∧
    ∀ a ∈ best, ∀ b ∈ rest, scoredBefore a b = true

/-- Selecting and sorting gives what sorting and cutting would. -/
theorem topKScored_best (selection : Selection scoredBefore) (scored : List (ℕ × Float32))
    (topK : ℕ) : Best scored (topKScored selection scored topK) topK := by
  have htotal : Std.Total fun a b => scoredBefore a b = true := ⟨scoredBefore_total⟩
  have htrans : IsTrans (ℕ × Float32) fun a b => scoredBefore a b = true :=
    ⟨fun _ _ _ => scoredBefore_trans⟩
  unfold topKScored
  split
  · rename_i hempty
    have hlen : 0 = min topK scored.length := by
      rcases hempty with rfl | rfl
      · simp
      · simp
    exact ⟨hlen, List.Pairwise.nil, scored, List.Perm.refl _, fun _ h => absurd h List.not_mem_nil⟩
  · dsimp only
    split
    · rename_i hlong
      have hsorted := List.perm_insertionSort (fun a b => scoredBefore a b = true)
        ((selection.selectNth topK scored).take topK)
      have hlen : (selection.selectNth topK scored).length = scored.length :=
        (selection.perm topK scored).length_eq
      refine ⟨?_, List.pairwise_insertionSort _ _, (selection.selectNth topK scored).drop topK,
        ?_, ?_⟩
      · rw [hsorted.length_eq, List.length_take, hlen]
      · have hsplit := (selection.perm topK scored).symm
        rw [← List.take_append_drop topK (selection.selectNth topK scored)] at hsplit
        exact hsplit.trans (hsorted.symm.append_right _)
      · intro a ha b hb
        exact selection.split topK scored hlong a (hsorted.mem_iff.mp ha) b hb
    · rename_i hshort
      have hsorted := List.perm_insertionSort (fun a b => scoredBefore a b = true) scored
      refine ⟨?_, List.pairwise_insertionSort _ _, [], ?_, ?_⟩
      · rw [hsorted.length_eq]
        omega
      · rw [List.append_nil]
        exact hsorted.symm
      · intro _ _ b hb
        exact absurd hb List.not_mem_nil

/-- The results are the best of the scored candidates, and there are as many as asked for. -/
def BestResults (entries : List (String × Float32)) (candidates : Option (List ℕ)) (topK : ℕ)
    (results : List (String × Float32)) : Prop :=
  results.length = min topK entries.length ∧
    ∃ best, Best (scoreCandidates entries Prod.snd candidates) best topK ∧
      results = best.filterMap fun s => entries[s.1]?.map fun e => (e.1, s.2)

/-- The limit on the candidates leaves room for the results, or is not reached. -/
def RoomForResults (ann : AnnIndex) (signatures : List Signature) (sig : Signature)
    (radius topK : ℕ) : Prop :=
  ann.maxCandidates ≤ (within signatures sig (min radius 2)).length →
    min topK signatures.length ≤ ann.maxCandidates

section Results
variable {ann : AnnIndex} {signatures : List Signature} {sig : Signature} {radius : ℕ}
  {entries : List (String × Float32)}

theorem scoreCandidates_lt {candidates : Option (List ℕ)} {s : ℕ × Float32}
    (h : s ∈ scoreCandidates entries Prod.snd candidates) : s.1 < entries.length := by
  cases candidates with
  | none =>
      obtain ⟨⟨e, i⟩, he, rfl⟩ := List.mem_map.mp h
      exact (List.getElem?_eq_some_iff.mp (List.mem_zipIdx_iff_getElem?.mp he)).1
  | some candidates =>
      obtain ⟨i, -, hs⟩ := List.mem_filterMap.mp h
      obtain ⟨e, he, rfl⟩ := Option.map_eq_some_iff.mp hs
      exact (List.getElem?_eq_some_iff.mp he).1

theorem scoreCandidates_length {candidates : List ℕ} (h : ∀ i ∈ candidates, i < entries.length) :
    (scoreCandidates entries Prod.snd (some candidates)).length = candidates.length := by
  apply List.filterMap_length_eq_length.mpr
  intro i hi
  rw [List.getElem?_eq_getElem (h i hi)]
  rfl

theorem named_length {scored : List (ℕ × Float32)} (h : ∀ s ∈ scored, s.1 < entries.length) :
    (scored.filterMap fun s => entries[s.1]?.map fun e => (e.1, s.2)).length = scored.length := by
  apply List.filterMap_length_eq_length.mpr
  intro s hs
  rw [List.getElem?_eq_getElem (h s hs)]
  rfl

theorem rankedIds_best_iff (m : Machine) (candidates : Option (List ℕ)) (topK : ℕ) :
    BestResults entries candidates topK
        (rankedIds m entries Prod.fst Prod.snd candidates topK) ↔
      min topK (scoreCandidates entries Prod.snd candidates).length =
        min topK entries.length := by
  have hbest := topKScored_best m.selection (scoreCandidates entries Prod.snd candidates) topK
  have hlt : ∀ s ∈ topKScored m.selection (scoreCandidates entries Prod.snd candidates) topK,
      s.1 < entries.length := by
    intro s hs
    obtain ⟨rest, hperm, -⟩ := hbest.front
    exact scoreCandidates_lt (hperm.mem_iff.mpr (List.mem_append_left rest hs))
  have hlength : (rankedIds m entries Prod.fst Prod.snd candidates topK).length =
      min topK (scoreCandidates entries Prod.snd candidates).length :=
    (named_length hlt).trans hbest.length
  unfold BestResults
  rw [hlength]
  exact and_iff_left ⟨_, hbest, rfl⟩

theorem bestResults_iff (m : Machine) (h : ann.Holds signatures radius)
    (hsig : ∀ k ≥ ann.bits, sig.getLsbD k = false) (hlen : entries.length = signatures.length)
    (topK : ℕ) :
    BestResults entries (ann.candidatesForSignature sig topK) topK
        (rankedIds m entries Prod.fst Prod.snd (ann.candidatesForSignature sig topK) topK) ↔
      RoomForResults ann signatures sig radius topK := by
  have hnear : (within signatures sig (min radius 2)).length ≤ signatures.length := by
    unfold within
    rw [List.length_map]
    exact (List.length_filter_le _ _).trans_eq List.length_zipIdx
  rw [rankedIds_best_iff, hlen]
  unfold RoomForResults
  rcases h.candidates_cases hsig topK with
    ⟨hcap, candidates, hc, -, hsub, hlimit⟩ | ⟨hroom, -, hc⟩ | ⟨hroom, hmany, candidates, hc, hperm⟩
  · have hlt : ∀ i ∈ candidates, i < entries.length :=
      fun i hi => hlen.symm ▸ within_lt (hsub hi)
    rw [hc, scoreCandidates_length hlt, hlimit]
    omega
  · have hall : (scoreCandidates entries Prod.snd none).length = signatures.length := by
      rw [← hlen]
      simp [scoreCandidates]
    rw [hc, hall]
    exact iff_of_true rfl fun hcap => absurd hroom (Nat.not_lt_of_le hcap)
  · have hlt : ∀ i ∈ candidates, i < entries.length :=
      fun i hi => hlen.symm ▸ within_lt (hperm.mem_iff.mp hi)
    have hneeded : topK * 4 ≤ ann.minNeeded topK := Nat.le_max_right _ _
    rw [hc, scoreCandidates_length hlt, hperm.length_eq]
    omega

end Results

/-! ## Both kinds of vectors -/

section Searcher
variable (m : Machine)

def signaturesOf (hyperplanes : List (List Float32)) : DenseEmbeddings → List Signature
  | .float values => values.map fun e => signatureF32 m e.2 hyperplanes
  | .quantized values => values.map fun e => signatureI8 e.values hyperplanes

def querySignature (hyperplanes : List (List Float32)) (queryVec : List Float32) :
    DenseEmbeddings → Signature
  | .float _ => signatureF32 m queryVec hyperplanes
  | .quantized _ => signatureI8 (quantizeVector queryVec) hyperplanes

/-- The embeddings with their scores for a query. -/
def scoredEntries (queryVec : List Float32) : DenseEmbeddings → List (String × Float32)
  | .float values => values.map fun e => (e.1, m.dotProduct queryVec e.2)
  | .quantized values => values.map fun e => (e.id, dotProductI8 (quantizeVector queryVec) e.values)

def VectorSearcher.candidates (searcher : VectorSearcher) (queryVec : List Float32) (topK : ℕ) :
    Option (List ℕ) :=
  searcher.ann.bind fun ann =>
    ann.candidatesForSignature (querySignature m ann.hyperplanes queryVec searcher.embeddings) topK

theorem scoreCandidates_map {α β : Type*} (f : α → β) (score : β → Float32) (values : List α)
    (candidates : Option (List ℕ)) :
    scoreCandidates (values.map f) score candidates =
      scoreCandidates values (fun value => score (f value)) candidates := by
  cases candidates with
  | none =>
      simp only [scoreCandidates, List.zipIdx_map, List.map_map]
      rfl
  | some candidates =>
      simp only [scoreCandidates, List.getElem?_map, Option.map_map]
      rfl

theorem rankedIds_map {α β : Type*} (f : α → β) (id : β → String) (score : β → Float32)
    (values : List α) (candidates : Option (List ℕ)) (topK : ℕ) :
    rankedIds m (values.map f) id score candidates topK =
      rankedIds m values (fun value => id (f value)) (fun value => score (f value)) candidates
        topK := by
  simp only [rankedIds, scoreCandidates_map, List.getElem?_map, Option.map_map]
  rfl

theorem VectorSearcher.rank_eq (searcher : VectorSearcher) (queryVec : List Float32) (topK : ℕ) :
    searcher.rank m queryVec topK =
      rankedIds m (scoredEntries m queryVec searcher.embeddings) Prod.fst Prod.snd
        (searcher.candidates m queryVec topK) topK := by
  unfold VectorSearcher.rank VectorSearcher.candidates
  cases searcher.embeddings with
  | float values =>
      unfold scoredEntries
      rw [rankedIds_map]
      rfl
  | quantized values =>
      unfold scoredEntries
      rw [rankedIds_map]
      rfl

theorem buildWithHyperplanes_holds {α : Type*} {dim : α → ℕ}
    {sign : α → List (List Float32) → Signature} {values : List α} {config : AnnConfig}
    {hyperplanes : List (List Float32)} {ann : AnnIndex}
    (hsign : ∀ value planes, ∀ k ≥ planes.length, (sign value planes).getLsbD k = false)
    (h : buildWithHyperplanes dim sign values config hyperplanes = some ann) :
    ann.Holds (values.map fun e => sign e ann.hyperplanes) config.vectorAnnHamming ∧
      ann.hyperplanes.length = ann.bits := by
  unfold buildWithHyperplanes at h
  split at h
  · contradiction
  · obtain ⟨planes, hplanes, rfl⟩ := Option.map_eq_some_iff.mp h
    have hlen : planes.length = annBits config := by
      unfold validateHyperplanes at hplanes
      split at hplanes
      · contradiction
      · rename_i hbits
        split at hplanes
        · contradiction
        · rw [← Option.some.inj hplanes]
          exact not_not.mp hbits
    have hrange : 4 ≤ annBits config ∧ annBits config ≤ 63 := by
      unfold annBits
      omega
    refine ⟨⟨rfl, by dsimp only; omega, ?_, by dsimp only; omega, by dsimp only; omega⟩, hlen⟩
    intro s hs k hk
    obtain ⟨value, -, rfl⟩ := List.mem_map.mp hs
    exact hsign value planes k (by dsimp only at hk; omega)

theorem build_holds {α : Type*} {dim : α → ℕ} {sign : α → List (List Float32) → Signature}
    {values : List α} {config : AnnConfig} {cachedHyperplanes : Option (List (List Float32))}
    {ann : AnnIndex}
    (hsign : ∀ value planes, ∀ k ≥ planes.length, (sign value planes).getLsbD k = false)
    (h : (cachedHyperplanes.bind (buildWithHyperplanes dim sign values config)).or
      (build dim sign m values config) = some ann) :
    ann.Holds (values.map fun e => sign e ann.hyperplanes) config.vectorAnnHamming ∧
      ann.hyperplanes.length = ann.bits := by
  rcases Option.or_eq_some_iff.mp h with hcached | ⟨-, hbuilt⟩
  · obtain ⟨planes, -, hplanes⟩ := Option.bind_eq_some_iff.mp hcached
    exact buildWithHyperplanes_holds hsign hplanes
  · unfold build at hbuilt
    split at hbuilt
    · contradiction
    · split at hbuilt
      · contradiction
      · exact buildWithHyperplanes_holds hsign hbuilt

variable {m} {config : AnnConfig} {cachedHyperplanes : Option (List (List Float32))}
  {embeddings : DenseEmbeddings} {ann : AnnIndex}

theorem start_holds
    (h : (VectorSearcher.start m config cachedHyperplanes embeddings).ann = some ann) :
    ann.Holds (signaturesOf m ann.hyperplanes embeddings) config.vectorAnnHamming ∧
      ann.hyperplanes.length = ann.bits := by
  cases embeddings with
  | float values => exact build_holds m (fun _ _ _ hk => getLsbD_signature hk) h
  | quantized values => exact build_holds m (fun _ _ _ hk => getLsbD_signature hk) h

theorem querySignature_low {queryVec : List Float32} (hbits : ann.hyperplanes.length = ann.bits) :
    ∀ k ≥ ann.bits,
      (querySignature m ann.hyperplanes queryVec embeddings).getLsbD k = false := by
  intro k hk
  rw [← hbits] at hk
  unfold querySignature
  cases embeddings with
  | float values =>
      unfold signatureF32
      exact getLsbD_signature hk
  | quantized values =>
      unfold signatureI8
      exact getLsbD_signature hk

theorem scoredEntries_length {queryVec : List Float32} (hyperplanes : List (List Float32)) :
    (scoredEntries m queryVec embeddings).length =
      (signaturesOf m hyperplanes embeddings).length := by
  cases embeddings with
  | float values => simp [scoredEntries, signaturesOf]
  | quantized values => simp [scoredEntries, signaturesOf]

end Searcher

/-- The candidates are complete exactly if no embedding within the radius is more than two bits
away, or the limit is reached, or every embedding is scored anyway; and the results are as many
as asked for exactly if the limit on the candidates leaves room for them. -/
theorem vector_search_iff (m : Machine) (config : AnnConfig)
    (cachedHyperplanes : Option (List (List Float32))) (embeddings : DenseEmbeddings)
    (embed : Embed) (query : String) (queryVec : List Float32) (topK : ℕ)
    (hquery : queryVector embed query = .ok (some queryVec)) :
    (∀ ann ∈ (VectorSearcher.start m config cachedHyperplanes embeddings).ann,
      (CandidatesComplete (signaturesOf m ann.hyperplanes embeddings)
          (querySignature m ann.hyperplanes queryVec embeddings) config.vectorAnnHamming
          ann.maxCandidates
          ((VectorSearcher.start m config cachedHyperplanes embeddings).candidates m queryVec
            topK) ↔
        RadiusProbed ann (signaturesOf m ann.hyperplanes embeddings)
          (querySignature m ann.hyperplanes queryVec embeddings) config.vectorAnnHamming topK)) ∧
      ∃ results,
        (VectorSearcher.start m config cachedHyperplanes embeddings).search m embed query topK =
            .ok results ∧
          (BestResults (scoredEntries m queryVec embeddings)
              ((VectorSearcher.start m config cachedHyperplanes embeddings).candidates m queryVec
                topK) topK results ↔
            ∀ ann ∈ (VectorSearcher.start m config cachedHyperplanes embeddings).ann,
              RoomForResults ann (signaturesOf m ann.hyperplanes embeddings)
                (querySignature m ann.hyperplanes queryVec embeddings) config.vectorAnnHamming
                topK) := by
  have hstart : (VectorSearcher.start m config cachedHyperplanes embeddings).embeddings =
      embeddings := rfl
  constructor
  · intro ann hann
    obtain ⟨hholds, hbits⟩ := start_holds hann
    unfold VectorSearcher.candidates
    rw [Option.mem_def.mp hann, Option.bind_some, hstart]
    exact candidatesComplete_iff hholds (querySignature_low hbits) topK
  · refine ⟨(VectorSearcher.start m config cachedHyperplanes embeddings).rank m queryVec topK,
      ?_, ?_⟩
    · unfold VectorSearcher.search
      rw [hquery]
      rfl
    · rw [VectorSearcher.rank_eq, hstart]
      unfold VectorSearcher.candidates
      rw [hstart]
      cases hann : (VectorSearcher.start m config cachedHyperplanes embeddings).ann with
      | none =>
          rw [Option.bind_none, rankedIds_best_iff]
          simp [scoreCandidates]
      | some ann =>
          obtain ⟨hholds, hbits⟩ := start_holds hann
          rw [Option.bind_some, bestResults_iff m hholds (querySignature_low hbits)
            (scoredEntries_length ann.hyperplanes)]
          simp

section Axes

/-- Sorting selects. -/
def sortingSelection : Selection scoredBefore where
  selectNth _ l := l.insertionSort fun a b => scoredBefore a b
  perm _ l := List.perm_insertionSort _ l
  split k l _ a ha b hb := by
    have htotal : Std.Total fun a b => scoredBefore a b = true := ⟨scoredBefore_total⟩
    have htrans : IsTrans (ℕ × Float32) fun a b => scoredBefore a b = true :=
      ⟨fun _ _ _ => scoredBefore_trans⟩
    have hsorted := List.pairwise_insertionSort (fun a b => scoredBefore a b = true) l
    rw [← List.take_append_drop k (l.insertionSort _)] at hsorted
    exact (List.pairwise_append.mp hsorted).2.2 a ha b hb

def plainMachine : Machine := ⟨dotProduct, fun _ _ => [], sortingSelection⟩

/-- The hyperplanes across the four axes. -/
def axes : List (List Float32) :=
  [[1, 0, 0, 0], [0, 1, 0, 0], [0, 0, 1, 0], [0, 0, 0, 1]].map (List.map f32OfInt)

def ordersVector : List Float32 := [1, 1, 1, 1].map f32OfInt

def embedOrders : Embed := fun _ => .ok [ordersVector]

def ordersQuery : List Float32 := normalizeVector ordersVector

theorem queryVector_orders : queryVector embedOrders "orders" = .ok (some ordersQuery) := by
  have htrim : Text.trim "orders" ≠ "" := by decide
  have hvector : ordersVector ≠ [] := by simp [ordersVector]
  unfold queryVector embedOrders
  rw [if_neg htrim]
  change Except.ok (if ordersVector = [] then none else some (normalizeVector ordersVector)) = _
  rw [if_neg hvector]
  rfl

theorem search_orders (searcher : VectorSearcher) (topK : ℕ) :
    searcher.search plainMachine embedOrders "orders" topK =
      .ok (searcher.rank plainMachine ordersQuery topK) := by
  unfold VectorSearcher.search
  rw [queryVector_orders]
  rfl

/-- Four embeddings on the side of the query, and one across three of the axes. -/
def fiveEmbeddings : DenseEmbeddings :=
  .float [("a", ordersVector), ("b", ordersVector), ("c", ordersVector), ("d", ordersVector),
    ("e", [1, -1, -1, -1].map f32OfInt)]

def wideConfig : AnnConfig :=
  { vectorAnnBits := 4, vectorAnnHamming := 3, vectorAnnMinCandidates := 1 }

def narrowConfig : AnnConfig :=
  { vectorAnnBits := 4, vectorAnnMaxCandidates := 1, vectorAnnMinCandidates := 1 }

theorem vector_search_fiveEmbeddings :
    (∀ ann ∈ (VectorSearcher.start plainMachine wideConfig (some axes) fiveEmbeddings).ann,
      (CandidatesComplete (signaturesOf plainMachine ann.hyperplanes fiveEmbeddings)
          (querySignature plainMachine ann.hyperplanes ordersQuery fiveEmbeddings)
          wideConfig.vectorAnnHamming ann.maxCandidates
          ((VectorSearcher.start plainMachine wideConfig (some axes) fiveEmbeddings).candidates
            plainMachine ordersQuery 1) ↔
        RadiusProbed ann (signaturesOf plainMachine ann.hyperplanes fiveEmbeddings)
          (querySignature plainMachine ann.hyperplanes ordersQuery fiveEmbeddings)
          wideConfig.vectorAnnHamming 1)) ∧
      ∃ results,
        (VectorSearcher.start plainMachine wideConfig (some axes) fiveEmbeddings).search
            plainMachine embedOrders "orders" 1 = .ok results ∧
          (BestResults (scoredEntries plainMachine ordersQuery fiveEmbeddings)
              ((VectorSearcher.start plainMachine wideConfig (some axes)
                fiveEmbeddings).candidates plainMachine ordersQuery 1) 1 results ↔
            ∀ ann ∈ (VectorSearcher.start plainMachine wideConfig (some axes)
                fiveEmbeddings).ann,
              RoomForResults ann (signaturesOf plainMachine ann.hyperplanes fiveEmbeddings)
                (querySignature plainMachine ann.hyperplanes ordersQuery fiveEmbeddings)
                wideConfig.vectorAnnHamming 1) :=
  vector_search_iff plainMachine wideConfig (some axes) fiveEmbeddings embedOrders "orders"
    ordersQuery 1 queryVector_orders

theorem fiveEmbeddings_signatures :
    signaturesOf plainMachine axes fiveEmbeddings = [15#64, 15#64, 15#64, 15#64, 1#64] := by
  decide

theorem ordersQuery_signature :
    querySignature plainMachine axes ordersQuery fiveEmbeddings = 15#64 := by
  decide +kernel

/-- The index of the five embeddings under some limits. -/
def fiveIndex (maxCandidates hamming : ℕ) : AnnIndex where
  hyperplanes := axes
  buckets := fillBuckets (signaturesOf plainMachine axes fiveEmbeddings)
  bits := 4
  maxCandidates := maxCandidates
  minCandidates := 1
  hamming := hamming

theorem wide_index :
    (VectorSearcher.start plainMachine wideConfig (some axes) fiveEmbeddings).ann =
      some (fiveIndex 5000 3) := rfl

theorem narrow_index :
    (VectorSearcher.start plainMachine narrowConfig (some axes) fiveEmbeddings).ann =
      some (fiveIndex 1 1) := rfl

theorem fiveIndex_candidates {searcher : VectorSearcher} {maxCandidates hamming : ℕ}
    (hembeddings : searcher.embeddings = fiveEmbeddings)
    (hann : searcher.ann = some (fiveIndex maxCandidates hamming)) (topK : ℕ) :
    searcher.candidates plainMachine ordersQuery topK =
      { fiveIndex maxCandidates hamming with
        buckets := fillBuckets [15#64, 15#64, 15#64, 15#64, 1#64] }.candidatesForSignature
        15#64 topK := by
  have hindex : (fiveIndex maxCandidates hamming).hyperplanes = axes := rfl
  unfold VectorSearcher.candidates
  rw [hann, hembeddings, Option.bind_some, hindex, ordersQuery_signature]
  unfold fiveIndex
  rw [fiveEmbeddings_signatures]

theorem wide_candidates :
    (VectorSearcher.start plainMachine wideConfig (some axes) fiveEmbeddings).candidates
      plainMachine ordersQuery 1 = some [0, 1, 2, 3] := by
  rw [fiveIndex_candidates rfl wide_index]
  decide

theorem far_within :
    4 ∈ within (signaturesOf plainMachine axes fiveEmbeddings)
      (querySignature plainMachine axes ordersQuery fiveEmbeddings) 3 := by
  rw [fiveEmbeddings_signatures, ordersQuery_signature]
  decide

theorem narrow_candidates :
    (VectorSearcher.start plainMachine narrowConfig (some axes) fiveEmbeddings).candidates
      plainMachine ordersQuery 2 = some [0] := by
  rw [fiveIndex_candidates rfl narrow_index]
  decide

/-- An embedding three bits away is missed under a radius of three, and one candidate gives one
result where two are asked for. -/
theorem far_embedding_missed :
    (∃ ann, (VectorSearcher.start plainMachine wideConfig (some axes) fiveEmbeddings).ann =
        some ann ∧
      ¬ CandidatesComplete (signaturesOf plainMachine ann.hyperplanes fiveEmbeddings)
        (querySignature plainMachine ann.hyperplanes ordersQuery fiveEmbeddings)
        wideConfig.vectorAnnHamming ann.maxCandidates
        ((VectorSearcher.start plainMachine wideConfig (some axes) fiveEmbeddings).candidates
          plainMachine ordersQuery 1)) ∧
      ∃ results,
        (VectorSearcher.start plainMachine narrowConfig (some axes) fiveEmbeddings).search
            plainMachine embedOrders "orders" 2 = .ok results ∧
          ¬ BestResults (scoredEntries plainMachine ordersQuery fiveEmbeddings)
            ((VectorSearcher.start plainMachine narrowConfig (some axes)
              fiveEmbeddings).candidates plainMachine ordersQuery 2) 2 results := by
  constructor
  · refine ⟨fiveIndex 5000 3, wide_index, ?_⟩
    rw [wide_candidates]
    rintro ⟨-, hall | hfull⟩
    · have hmem : 4 ∈ [0, 1, 2, 3] := hall 4 far_within
      exact absurd hmem (by decide)
    · exact absurd hfull.1 (by decide)
  · refine ⟨_, search_orders _ 2, ?_⟩
    intro hbest
    rw [narrow_candidates] at hbest
    obtain ⟨hlength, best, hfront, hresults⟩ := hbest
    have hscored : (scoreCandidates (scoredEntries plainMachine ordersQuery fiveEmbeddings)
        Prod.snd (some [0])).length = 1 := by
      apply scoreCandidates_length
      intro i hi
      rw [List.mem_singleton.mp hi]
      exact Nat.zero_lt_succ _
    have hcount : (scoredEntries plainMachine ordersQuery fiveEmbeddings).length = 5 := by
      unfold scoredEntries fiveEmbeddings
      rfl
    have hfew := hfront.length
    have hle := List.length_filterMap_le
      (fun s : ℕ × Float32 => (scoredEntries plainMachine ordersQuery fiveEmbeddings)[s.1]?.map
        fun e => (e.1, s.2)) best
    rw [hscored] at hfew
    rw [hresults, hcount] at hlength
    omega

end Axes

end DbtNova.AnnSearch
