import DbtNova.Text
import Mathlib.Algebra.BigOperators.Group.List.Basic
import Mathlib.Algebra.Order.Ring.Nat

/-!
# Latency figures of a tool

`ToolMetrics` of `utils/metrics.rs`: the counters that a call adds to, the percentiles that a
snapshot reports and the histogram that is written for Prometheus. Counters are `u64` and wrap;
the rank of a percentile is computed with a product that saturates.
-/
namespace DbtNova.LatencyMetrics

def u64Max : ℕ := 2 ^ 64 - 1

/-- An atomic sum, which wraps. -/
def fetchAdd (counter n : ℕ) : ℕ := (counter + n) % 2 ^ 64

def saturatingAdd (a b : ℕ) : ℕ := min (a + b) u64Max

def saturatingMul (a b : ℕ) : ℕ := min (a * b) u64Max

def divCeil (a b : ℕ) : ℕ := (a + b - 1) / b

def bucketEdgesMs : List ℕ := [5, 10, 50, 100, 500, 1000]

def bucketCount : ℕ := bucketEdgesMs.length + 1

structure ToolMetrics where
  calls : ℕ
  errors : ℕ
  totalMs : ℕ
  maxMs : ℕ
  buckets : List ℕ

def ToolMetrics.new : ToolMetrics := ⟨0, 0, 0, 0, List.replicate bucketCount 0⟩

/-- The first bucket whose edge is not below, or the one behind the last edge. -/
def bucketIndex (durationMs : ℕ) : ℕ := bucketEdgesMs.findIdx (durationMs ≤ ·)

structure Call where
  durationMs : UInt64
  success : Bool

def updateMax (maxMs value : ℕ) : ℕ := if maxMs < value then value else maxMs

def ToolMetrics.record (metrics : ToolMetrics) (call : Call) : ToolMetrics :=
  let durationMs := call.durationMs.toNat
  { calls := fetchAdd metrics.calls 1
    errors := if call.success then metrics.errors else fetchAdd metrics.errors 1
    totalMs := fetchAdd metrics.totalMs durationMs
    maxMs := updateMax metrics.maxMs durationMs
    buckets := metrics.buckets.modify (bucketIndex durationMs) (fetchAdd · 1) }

/-- The loop over the buckets from the one at `idx` on. -/
def percentileFrom (target maxMs : ℕ) : ℕ → ℕ → List ℕ → Option ℕ
  | _, _, [] => some maxMs
  | idx, cumulative, bucket :: rest =>
      if target ≤ saturatingAdd cumulative bucket then some (bucketEdgesMs.getD idx maxMs)
      else percentileFrom target maxMs (idx + 1) (saturatingAdd cumulative bucket) rest

def percentileMs (buckets : List ℕ) (calls numerator denominator maxMs : ℕ) : Option ℕ :=
  if calls = 0 then none
  else percentileFrom (divCeil (saturatingMul calls numerator) denominator) maxMs 0 0 buckets

def bucketLabels : List String :=
  ["<=5ms", "<=10ms", "<=50ms", "<=100ms", "<=500ms", "<=1000ms", ">1000ms"]

structure Snapshot where
  calls : ℕ
  errors : ℕ
  errorRateBps : ℕ
  totalMs : ℕ
  avgMs : ℕ
  p95Ms : Option ℕ
  p99Ms : Option ℕ
  maxMs : ℕ
  buckets : List (String × ℕ)

/-- A quotient by no calls is 0. -/
def ToolMetrics.snapshot (metrics : ToolMetrics) : Snapshot :=
  { calls := metrics.calls
    errors := metrics.errors
    errorRateBps := saturatingMul metrics.errors 10000 / metrics.calls
    totalMs := metrics.totalMs
    avgMs := metrics.totalMs / metrics.calls
    p95Ms := percentileMs metrics.buckets metrics.calls 95 100 metrics.maxMs
    p99Ms := percentileMs metrics.buckets metrics.calls 99 100 metrics.maxMs
    maxMs := metrics.maxMs
    buckets := bucketLabels.zip metrics.buckets }

def ToolMetrics.histogramCount (metrics : ToolMetrics) : ℕ := metrics.buckets.sum % 2 ^ 64

/-- The counts of the histogram lines with an edge. -/
def cumulativeCounts : ℕ → List ℕ → List ℕ
  | _, [] => []
  | cumulative, bucket :: rest =>
      saturatingAdd cumulative bucket :: cumulativeCounts (saturatingAdd cumulative bucket) rest

/-- The counts of all histogram lines; the last is that of `+Inf`. -/
def ToolMetrics.histogramCounts (metrics : ToolMetrics) : List ℕ :=
  cumulativeCounts 0 (metrics.buckets.take bucketEdgesMs.length) ++ [metrics.histogramCount]

def prometheusLabelValue (value : String) : String :=
  String.ofList (value.toList.flatMap fun ch =>
    if ch = '\\' then ['\\', '\\'] else if ch = '"' then ['\\', '"']
    else if ch = '\n' then ['\\', 'n'] else [ch])

def writePrometheusHistogram (tool : String) (metrics : ToolMetrics) : List String :=
  let label := "tool=\"" ++ prometheusLabelValue tool ++ "\""
  let edges := bucketEdgesMs.map toString ++ ["+Inf"]
  let name := "nova_tool_call_duration_milliseconds"
  (edges.zip metrics.histogramCounts).map (fun (edge, count) =>
      name ++ "_bucket\x7b" ++ label ++ ",le=\"" ++ edge ++ "\"\x7d " ++ toString count) ++
    [name ++ "_sum\x7b" ++ label ++ "\x7d " ++ toString metrics.totalMs,
      name ++ "_count\x7b" ++ label ++ "\x7d " ++ toString metrics.histogramCount]

/-! ### What the counters count -/

def durations (calls : List Call) : List ℕ := calls.map fun call => call.durationMs.toNat

def run (calls : List Call) : ToolMetrics := calls.foldl ToolMetrics.record .new

/-- The calls that fall into the buckets up to `k`. -/
def upTo (ds : List ℕ) (k : ℕ) : ℕ := ds.countP (bucketIndex · ≤ k)

def IsMaximum (ds : List ℕ) (maxMs : ℕ) : Prop := maxMs ∈ ds ∧ ∀ d ∈ ds, d ≤ maxMs

section Counts
variable {calls : List Call} {ds : List ℕ} {k : ℕ}

theorem run_concat (calls : List Call) (call : Call) :
    run (calls ++ [call]) = (run calls).record call := by
  unfold run
  rw [List.foldl_append]
  rfl

theorem durations_concat (calls : List Call) (call : Call) :
    durations (calls ++ [call]) = durations calls ++ [call.durationMs.toNat] := by
  unfold durations
  rw [List.map_append]
  rfl

theorem length_durations (calls : List Call) : (durations calls).length = calls.length :=
  List.length_map _

theorem calls_run (calls : List Call) : (run calls).calls = calls.length % 2 ^ 64 := by
  induction calls using List.reverseRecOn with
  | nil => rfl
  | append_singleton calls call ih =>
      rw [run_concat, List.length_append]
      simp only [ToolMetrics.record, fetchAdd, ih, List.length_singleton, Nat.mod_add_mod]

theorem bucketIndex_lt (d : ℕ) : bucketIndex d < bucketCount :=
  Nat.lt_succ_of_le List.findIdx_le_length

/-- Each bucket holds the calls of its index, up to multiples of 2^64. -/
theorem buckets_run (calls : List Call) :
    (run calls).buckets =
      (List.range bucketCount).map fun k =>
        (durations calls).countP (bucketIndex · = k) % 2 ^ 64 := by
  induction calls using List.reverseRecOn with
  | nil => rfl
  | append_singleton calls call ih =>
      rw [run_concat, durations_concat]
      simp only [ToolMetrics.record, ih, List.countP_append, List.countP_singleton]
      refine List.ext_getElem? fun k => ?_
      rw [List.getElem?_modify, List.getElem?_map, List.getElem?_map]
      by_cases hk : k < bucketCount
      · rw [List.getElem?_range hk]
        by_cases hidx : bucketIndex call.durationMs.toNat = k
        · simp [hidx, fetchAdd]
        · simp [hidx]
      · rw [List.getElem?_eq_none (by rw [List.length_range]; omega)]
        rfl

theorem maxMs_run (calls : List Call) :
    (∀ d ∈ durations calls, d ≤ (run calls).maxMs) ∧
      ((run calls).maxMs ∈ durations calls ∨ calls = []) := by
  induction calls using List.reverseRecOn with
  | nil => exact ⟨fun d hd => absurd hd List.not_mem_nil, Or.inr rfl⟩
  | append_singleton calls call ih =>
      obtain ⟨hle, hmem⟩ := ih
      rw [run_concat, durations_concat]
      simp only [ToolMetrics.record, updateMax, List.mem_append, List.mem_singleton]
      by_cases hmax : (run calls).maxMs < call.durationMs.toNat
      · rw [if_pos hmax]
        refine ⟨?_, Or.inl (Or.inr rfl)⟩
        rintro d (hd | rfl)
        · exact (hle d hd).trans hmax.le
        · exact le_rfl
      · rw [if_neg hmax]
        refine ⟨?_, Or.inl ?_⟩
        · rintro d (hd | rfl)
          · exact hle d hd
          · exact Nat.not_lt.mp hmax
        · rcases hmem with hmem | rfl
          · exact Or.inl hmem
          · exact Or.inr (Nat.le_zero.mp (Nat.not_lt.mp hmax)).symm

theorem isMaximum_run (h : calls ≠ []) : IsMaximum (durations calls) (run calls).maxMs :=
  ⟨(maxMs_run calls).2.resolve_right h, (maxMs_run calls).1⟩

/-! ### Cumulative counts -/

theorem upTo_succ (ds : List ℕ) (k : ℕ) :
    upTo ds (k + 1) = upTo ds k + ds.countP (bucketIndex · = k + 1) := by
  induction ds with
  | nil => rfl
  | cons d ds ih =>
      simp only [upTo, List.countP_cons, decide_eq_true_eq] at ih ⊢
      rw [ih]
      split_ifs <;> omega

theorem upTo_zero (ds : List ℕ) : upTo ds 0 = ds.countP (bucketIndex · = 0) := by
  simp only [upTo, Nat.le_zero]

theorem sum_countP (ds : List ℕ) (k : ℕ) :
    ((List.range (k + 1)).map fun j => ds.countP (bucketIndex · = j)).sum = upTo ds k := by
  induction k with
  | zero => simp [upTo_zero]
  | succ k ih => rw [List.range_succ, List.map_append, List.sum_append, ih, upTo_succ]; simp

theorem upTo_le_length (ds : List ℕ) (k : ℕ) : upTo ds k ≤ ds.length := List.countP_le_length

theorem upTo_mono {j k : ℕ} (h : j ≤ k) (ds : List ℕ) : upTo ds j ≤ upTo ds k :=
  List.countP_mono_left fun _ _ hd => decide_eq_true ((of_decide_eq_true hd).trans h)

/-- The last bucket takes all calls. -/
theorem upTo_last (ds : List ℕ) : upTo ds 6 = ds.length :=
  List.countP_eq_length.mpr fun d _ => decide_eq_true (Nat.le_of_lt_succ (bucketIndex_lt d))

theorem buckets_run_of_lt (h : calls.length < 2 ^ 64) :
    (run calls).buckets =
      (List.range bucketCount).map fun k => (durations calls).countP (bucketIndex · = k) := by
  rw [buckets_run]
  refine List.map_congr_left fun k _ => Nat.mod_eq_of_lt (lt_of_le_of_lt ?_ h)
  rw [← length_durations]
  exact List.countP_le_length

theorem sum_take_buckets (h : calls.length < 2 ^ 64) (hk : k ≤ 6) :
    ((run calls).buckets.take (k + 1)).sum = upTo (durations calls) k := by
  have hcount : bucketCount = 7 := rfl
  have hrange : (List.range bucketCount).take (k + 1) = List.range (k + 1) := by
    rw [List.take_range, hcount, Nat.min_eq_left (by omega)]
  rw [buckets_run_of_lt h, ← List.map_take, hrange, sum_countP]

end Counts

/-! ### Percentiles -/

section Percentiles
variable {calls : List Call} {ds counts : List ℕ} {k rank target maxMs v : ℕ}

/-- The value is the upper edge of the first bucket up to which the calls, counted in hundredths,
reach the rank. The last bucket has no edge; its value is the longest duration. -/
def IsPercentile (ds : List ℕ) (rank v : ℕ) : Prop :=
  ∃ k ≤ 6, rank ≤ 100 * upTo ds k ∧ (∀ j < k, 100 * upTo ds j < rank) ∧
    (bucketEdgesMs[k]? = some v ∨ k = 6 ∧ IsMaximum ds v)

theorem percentileFrom_spec (target maxMs : ℕ) (hne : counts ≠ []) (cumulative idx : ℕ)
    (hsum : cumulative + counts.sum ≤ u64Max) (hreach : target ≤ cumulative + counts.sum) :
    ∃ k < counts.length,
      percentileFrom target maxMs idx cumulative counts =
        some (bucketEdgesMs.getD (idx + k) maxMs) ∧
      target ≤ cumulative + (counts.take (k + 1)).sum ∧
      ∀ j < k, cumulative + (counts.take (j + 1)).sum < target := by
  induction counts generalizing cumulative idx with
  | nil => exact absurd rfl hne
  | cons bucket rest ih =>
      rw [List.sum_cons] at hsum hreach
      have hadd : saturatingAdd cumulative bucket = cumulative + bucket :=
        Nat.min_eq_left (by omega)
      unfold percentileFrom
      rw [hadd]
      by_cases htarget : target ≤ cumulative + bucket
      · refine ⟨0, Nat.succ_pos _, if_pos htarget, ?_, fun j hj => absurd hj (Nat.not_lt_zero j)⟩
        simpa using htarget
      · have hrest : rest ≠ [] := by
          rintro rfl
          rw [List.sum_nil] at hreach
          omega
        obtain ⟨k, hk, hvalue, hle, hbefore⟩ :=
          ih hrest (cumulative + bucket) (idx + 1) (by omega) (by omega)
        refine ⟨k + 1, Nat.succ_lt_succ hk, ?_, ?_, ?_⟩
        · rw [if_neg htarget, hvalue, Nat.add_assoc, Nat.add_comm 1 k]
        · rw [List.take_succ_cons, List.sum_cons]
          omega
        · intro j hj
          cases j with
          | zero => simpa using htarget
          | succ j =>
              have hthis := hbefore j (by omega)
              rw [List.take_succ_cons, List.sum_cons]
              omega

theorem divCeil_le_iff (rank count : ℕ) : divCeil rank 100 ≤ count ↔ rank ≤ 100 * count := by
  unfold divCeil
  omega

theorem length_buckets (calls : List Call) : (run calls).buckets.length = 7 := by
  rw [buckets_run, List.length_map, List.length_range]
  rfl

theorem sum_buckets (h : calls.length < 2 ^ 64) : (run calls).buckets.sum = calls.length := by
  have hall := sum_take_buckets h (le_refl 6)
  have hlength := length_buckets calls
  rw [List.take_of_length_le (by omega), upTo_last, length_durations] at hall
  exact hall

/-- A percentile that is no more than all calls is found. -/
theorem percentileMs_spec (hne : calls ≠ []) (h : calls.length < 2 ^ 64) (numerator : ℕ)
    (hnumerator : numerator ≤ 100) :
    ∃ v, percentileMs (run calls).buckets (run calls).calls numerator 100 (run calls).maxMs =
        some v ∧
      IsPercentile (durations calls) (saturatingMul calls.length numerator) v := by
  have hpos : 0 < calls.length := List.length_pos_iff.mpr hne
  have hcalls : (run calls).calls = calls.length := by
    rw [calls_run, Nat.mod_eq_of_lt h]
  have hrank : saturatingMul calls.length numerator ≤ 100 * calls.length := by
    refine (Nat.min_le_left _ _).trans ?_
    rw [Nat.mul_comm]
    exact Nat.mul_le_mul_right _ hnumerator
  have hsum := sum_buckets h
  have hbuckets : (run calls).buckets ≠ [] := by
    intro hnil
    rw [hnil, List.sum_nil] at hsum
    omega
  have hlength := length_buckets calls
  obtain ⟨k, hk, hvalue, hle, hbefore⟩ := percentileFrom_spec
    (divCeil (saturatingMul calls.length numerator) 100) (run calls).maxMs hbuckets 0 0
    (by rw [hsum]; unfold u64Max; omega)
    (by rw [hsum, Nat.zero_add, divCeil_le_iff]; exact hrank)
  rw [Nat.zero_add] at hvalue hle
  refine ⟨bucketEdgesMs.getD k (run calls).maxMs, ?_, k, by omega, ?_, ?_, ?_⟩
  · rw [percentileMs, hcalls, if_neg (by omega), hvalue]
  · rw [← sum_take_buckets h (by omega)]
    exact (divCeil_le_iff _ _).mp hle
  · intro j hj
    have hthis := hbefore j hj
    rw [Nat.zero_add, sum_take_buckets h (by omega)] at hthis
    have hnot := mt (divCeil_le_iff (saturatingMul calls.length numerator)
      (upTo (durations calls) j)).mpr
    omega
  · by_cases hlast : k = 6
    · subst hlast
      exact Or.inr ⟨rfl, isMaximum_run hne⟩
    · left
      have hedge : k < bucketEdgesMs.length := by
        simp only [bucketEdgesMs, List.length_cons, List.length_nil]
        omega
      rw [List.getD_eq_getElem?_getD, List.getElem?_eq_getElem hedge]
      rfl

theorem edges_mono {j k a b : ℕ} (hjk : j ≤ k) (ha : bucketEdgesMs[j]? = some a)
    (hb : bucketEdgesMs[k]? = some b) : a ≤ b := by
  have hsorted : bucketEdgesMs.Pairwise (· ≤ ·) := by decide
  obtain ⟨hj, rfl⟩ := List.getElem?_eq_some_iff.mp ha
  obtain ⟨hk, rfl⟩ := List.getElem?_eq_some_iff.mp hb
  rcases Nat.lt_or_eq_of_le hjk with hlt | rfl
  · exact List.pairwise_iff_getElem.mp hsorted j k hj hk hlt
  · exact le_rfl

/-- The calls up to a bucket are those no longer than its edge. -/
theorem bucketIndex_le_iff (hk : bucketEdgesMs[k]? = some v) (d : ℕ) :
    bucketIndex d ≤ k ↔ d ≤ v := by
  obtain ⟨hlt, hedge⟩ := List.getElem?_eq_some_iff.mp hk
  unfold bucketIndex
  constructor
  · intro hle
    have hfound := hle.trans_lt hlt
    have hd := of_decide_eq_true (List.findIdx_getElem (w := hfound))
    exact hd.trans (edges_mono hle (List.getElem?_eq_getElem hfound) hk)
  · intro hd
    by_contra hgt
    have hnot := List.not_of_lt_findIdx (Nat.not_le.mp hgt)
    rw [hedge] at hnot
    exact of_decide_eq_false hnot hd

theorem upTo_eq (hk : bucketEdgesMs[k]? = some v) (ds : List ℕ) :
    upTo ds k = ds.countP (· ≤ v) := by
  unfold upTo
  exact List.countP_congr fun d _ => by
    rw [decide_eq_true_iff, decide_eq_true_iff, bucketIndex_le_iff hk]

/-- As many calls as the rank asks for took no longer. -/
theorem IsPercentile.le_countP (h : IsPercentile ds rank v) : rank ≤ 100 * ds.countP (· ≤ v) := by
  obtain ⟨k, hk, hrank, -, hedge | ⟨rfl, -, hmax⟩⟩ := h
  · rwa [← upTo_eq hedge]
  · rw [upTo_last] at hrank
    rwa [List.countP_eq_length.mpr fun d hd => decide_eq_true (hmax d hd)]

/-- A call behind the last edge is longer than every edge. -/
theorem exists_overflow (h : 100 * upTo ds 5 < rank) (hle : rank ≤ 100 * ds.length) :
    ∃ d ∈ ds, 1000 < d := by
  have hedge : bucketEdgesMs[5]? = some 1000 := rfl
  rw [upTo_eq hedge] at h
  by_contra hnone
  have hall : ds.countP (· ≤ 1000) = ds.length := List.countP_eq_length.mpr fun d hd =>
    decide_eq_true (Nat.not_lt.mp fun hlong => hnone ⟨d, hd, hlong⟩)
  omega

theorem IsPercentile.mono {rank' v' : ℕ} (h : IsPercentile ds rank v)
    (h' : IsPercentile ds rank' v') (hle : rank ≤ rank') : v ≤ v' := by
  obtain ⟨k, hk, -, hbefore, hvalue⟩ := h
  obtain ⟨k', hk', hrank', hbefore', hvalue'⟩ := h'
  have hkk : k ≤ k' := by
    by_contra hlt
    have hthis := hbefore k' (Nat.not_le.mp hlt)
    omega
  have hlast : bucketEdgesMs[5]? = some 1000 := rfl
  rcases hvalue with hedge | ⟨rfl, hmem, -⟩
  · rcases hvalue' with hedge' | ⟨rfl, -, hmax'⟩
    · exact edges_mono hkk hedge hedge'
    · have hfits : k < bucketEdgesMs.length := (List.getElem?_eq_some_iff.mp hedge).1
      have hrankAll : rank' ≤ 100 * ds.length := by rwa [← upTo_last]
      obtain ⟨d, hd, hlong⟩ := exists_overflow (hbefore' 5 (by decide)) hrankAll
      have hv := edges_mono (Nat.le_of_lt_succ hfits) hedge hlast
      exact hv.trans (hlong.le.trans (hmax' d hd))
  · obtain rfl : k' = 6 := by omega
    rcases hvalue' with hedge' | ⟨-, -, hmax'⟩
    · cases hedge'
    · exact hmax' v hmem

/-! ### The histogram -/

theorem cumulativeCounts_eq {cumulative : ℕ} (h : cumulative + counts.sum ≤ u64Max) :
    cumulativeCounts cumulative counts =
      (List.range counts.length).map fun k => cumulative + (counts.take (k + 1)).sum := by
  induction counts generalizing cumulative with
  | nil => rfl
  | cons bucket rest ih =>
      rw [List.sum_cons] at h
      have hadd : saturatingAdd cumulative bucket = cumulative + bucket :=
        Nat.min_eq_left (by omega)
      have hrest := ih (show cumulative + bucket + rest.sum ≤ u64Max by omega)
      rw [cumulativeCounts, hadd, hrest, List.length_cons, List.range_succ_eq_map, List.map_cons,
        List.map_map]
      simp [Nat.add_assoc, Function.comp_def]

/-- Each line counts the calls up to its bucket. -/
theorem histogramCounts_run (h : calls.length < 2 ^ 64) :
    (run calls).histogramCounts = (List.range 7).map (upTo (durations calls)) := by
  have hsum := sum_buckets h
  have hlength := length_buckets calls
  have hfit : 0 + ((run calls).buckets.take 6).sum ≤ u64Max := by
    rw [sum_take_buckets (k := 5) h (by decide)]
    have hle := upTo_le_length (durations calls) 5
    rw [length_durations] at hle
    unfold u64Max
    omega
  have hedges : bucketEdgesMs.length = 6 := rfl
  have hlines : cumulativeCounts 0 ((run calls).buckets.take 6) =
      (List.range 6).map (upTo (durations calls)) := by
    rw [cumulativeCounts_eq hfit, List.length_take, hlength]
    refine List.map_congr_left fun k hk => ?_
    have hlt : k < 6 := List.mem_range.mp hk
    rw [Nat.zero_add, List.take_take, Nat.min_eq_left (by omega), sum_take_buckets h (by omega)]
  have htotal : (run calls).histogramCount = upTo (durations calls) 6 := by
    rw [ToolMetrics.histogramCount, hsum, Nat.mod_eq_of_lt h, upTo_last, length_durations]
  rw [ToolMetrics.histogramCounts, hedges, hlines, htotal]
  rfl

/-- The histogram does not go down and ends at the calls, and the percentiles bound the durations.
The rank is cut off where the product would overflow. -/
theorem percentiles_bound (calls : List Call) (h : calls.length < 2 ^ 64) :
    (run calls).histogramCounts.Pairwise (· ≤ ·) ∧
      (run calls).histogramCounts.getLast? = some calls.length ∧
      (calls = [] → (run calls).snapshot.p95Ms = none ∧ (run calls).snapshot.p99Ms = none) ∧
      (calls ≠ [] → ∃ p95 p99, (run calls).snapshot.p95Ms = some p95 ∧
        (run calls).snapshot.p99Ms = some p99 ∧
        IsPercentile (durations calls) (min (calls.length * 95) u64Max) p95 ∧
        IsPercentile (durations calls) (min (calls.length * 99) u64Max) p99 ∧
        min (calls.length * 95) u64Max ≤ 100 * (durations calls).countP (· ≤ p95) ∧
        min (calls.length * 99) u64Max ≤ 100 * (durations calls).countP (· ≤ p99) ∧
        p95 ≤ p99) := by
  refine ⟨?_, ?_, ?_, ?_⟩
  · rw [histogramCounts_run h, List.pairwise_map]
    exact List.pairwise_lt_range.imp fun hlt => upTo_mono hlt.le _
  · rw [histogramCounts_run h, List.getLast?_map]
    have hlast : (List.range 7).getLast? = some 6 := rfl
    rw [hlast, Option.map_some, upTo_last, length_durations]
  · rintro rfl
    exact ⟨rfl, rfl⟩
  · intro hne
    obtain ⟨p95, hp95, h95⟩ := percentileMs_spec hne h 95 (by decide)
    obtain ⟨p99, hp99, h99⟩ := percentileMs_spec hne h 99 (by decide)
    have hranks : saturatingMul calls.length 95 ≤ saturatingMul calls.length 99 :=
      min_le_min_right u64Max (Nat.mul_le_mul_left _ (by decide))
    exact ⟨p95, p99, hp95, hp99, h95, h99, h95.le_countP, h99.le_countP, h95.mono h99 hranks⟩

theorem percentiles_bound_one :
    (run [⟨7, true⟩]).histogramCounts.Pairwise (· ≤ ·) ∧
      (run [⟨7, true⟩]).histogramCounts.getLast? = some 1 ∧
      ([(⟨7, true⟩ : Call)] = [] → (run [⟨7, true⟩]).snapshot.p95Ms = none ∧
        (run [⟨7, true⟩]).snapshot.p99Ms = none) ∧
      ([(⟨7, true⟩ : Call)] ≠ [] → ∃ p95 p99, (run [⟨7, true⟩]).snapshot.p95Ms = some p95 ∧
        (run [⟨7, true⟩]).snapshot.p99Ms = some p99 ∧
        IsPercentile (durations [⟨7, true⟩]) (min (1 * 95) u64Max) p95 ∧
        IsPercentile (durations [⟨7, true⟩]) (min (1 * 99) u64Max) p99 ∧
        min (1 * 95) u64Max ≤ 100 * (durations [⟨7, true⟩]).countP (· ≤ p95) ∧
        min (1 * 99) u64Max ≤ 100 * (durations [⟨7, true⟩]).countP (· ≤ p99) ∧
        p95 ≤ p99) :=
  percentiles_bound [⟨7, true⟩] (by decide)

/-- Half of the calls take 1 ms, and the other half 600 ms. -/
def halves (n : ℕ) : List Call := List.replicate n ⟨1, true⟩ ++ List.replicate n ⟨600, true⟩

theorem durations_halves (n : ℕ) :
    durations (halves n) = List.replicate n 1 ++ List.replicate n 600 := by
  unfold durations halves
  rw [List.map_append, List.map_replicate, List.map_replicate]
  rfl

/-- A rank that is cut off to at most half of the calls is reached in the first bucket. -/
theorem p95_halves {n : ℕ} (hpos : 0 < n) (hfit : 2 * n < 2 ^ 64) (hrank : u64Max ≤ 100 * n) :
    (run (halves n)).snapshot.p95Ms = some 5 ∧ (durations (halves n)).countP (· ≤ 5) = n := by
  have hlength : (halves n).length = 2 * n := by
    rw [halves, List.length_append, List.length_replicate, List.length_replicate]
    omega
  have hcount : (durations (halves n)).countP (· ≤ 5) = n := by
    rw [durations_halves, List.countP_append, List.countP_replicate, List.countP_replicate]
    rfl
  have hne : halves n ≠ [] := by
    intro hnil
    rw [hnil, List.length_nil] at hlength
    omega
  obtain ⟨v, hv, hspec⟩ := percentileMs_spec hne (by omega) 95 (by decide)
  refine ⟨?_, hcount⟩
  -- the first bucket reaches the rank, so it is the first that does
  have hfirst : saturatingMul (halves n).length 95 ≤ 100 * upTo (durations (halves n)) 0 := by
    have hedge : bucketEdgesMs[0]? = some 5 := rfl
    rw [upTo_eq hedge, hcount]
    exact (Nat.min_le_right _ _).trans hrank
  obtain ⟨k, -, -, hbefore, hvalue⟩ := hspec
  obtain rfl : k = 0 := by
    by_contra hk
    have hthis := hbefore 0 (Nat.pos_of_ne_zero hk)
    omega
  obtain hedge | ⟨hlast, -⟩ := hvalue
  · cases hedge
    exact hv
  · cases hlast

/-- A count that has wrapped to 0 reports nothing. -/
theorem p95_wrapped (h : calls.length % 2 ^ 64 = 0) : (run calls).snapshot.p95Ms = none := by
  have hcalls : (run calls).calls = 0 := by rw [calls_run, h]
  simp only [ToolMetrics.snapshot, percentileMs, hcalls, if_true]

/-- For 2^63 calls the rank is a fiftieth of them, and for 2^64 there is none. -/
theorem rank_saturates :
    ((run (halves (2 ^ 62))).snapshot.p95Ms = some 5 ∧
      ¬ 95 * (durations (halves (2 ^ 62))).length ≤
        100 * (durations (halves (2 ^ 62))).countP (· ≤ 5)) ∧
      (run (halves (2 ^ 63))).snapshot.p95Ms = none := by
  obtain ⟨hp95, hcount⟩ := p95_halves (n := 2 ^ 62) (by decide) (by decide) (by decide)
  refine ⟨⟨hp95, ?_⟩, p95_wrapped ?_⟩
  · rw [hcount, durations_halves, List.length_append, List.length_replicate,
      List.length_replicate]
    decide
  · rw [halves, List.length_append, List.length_replicate, List.length_replicate]
    decide

end Percentiles

end DbtNova.LatencyMetrics
