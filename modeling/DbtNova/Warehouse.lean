import DbtNova.BoundedCollect
import Mathlib.Data.List.Sort

/-!
# Results read from a warehouse

The success paths of the three providers: the rows that come with the first
response and the loop that fetches the rest, under a row limit, a byte limit and
a cap on the number of fetches. Cells are converted row by row, which changes no
row's place; a row is therefore only known by its place in the result, and
`size` is the length of its serialized form. A failed request ends the call with
an error and returns no rows, so fetches are total here.
-/
namespace DbtNova.Warehouse
open BoundedCollect

/-- A complete result. Its rows are told apart by their place. -/
structure ResultSet (ρ : Type) where
  rows : List ρ
  nodup : rows.Nodup

/-- What a success path returns, without the column data and the statistics. -/
structure QueryResult (ρ : Type) where
  rows : List ρ
  truncated : Bool
  fetchedChunks : ℕ
  deriving DecidableEq, Repr

/-- The rows are a front of the result within the row limit, and all of it unless
the flag says otherwise. -/
structure NoSilentLoss {ρ : Type} (full : List ρ) (rowLimit : Option ℕ) (out : QueryResult ρ) :
    Prop where
  front : out.rows <+: full
  bounded : ∀ limit ∈ rowLimit, out.rows.length ≤ limit
  whole : out.truncated = false → out.rows = full

variable {ρ : Type} (size : ρ → ℕ)

/-! ## Databricks -/

structure ResultData (ρ : Type) where
  dataArray : Option (List ρ) := none
  chunkIndex : Option ℕ := none

structure ResultManifest where
  truncated : Option Bool := none
  chunkIndices : List ℕ

structure StatementResponse (ρ : Type) where
  manifest : Option ResultManifest := none
  result : Option (ResultData ρ) := none

structure ExecuteOptions where
  rowLimit : Option ℕ := some 1000
  byteLimit : Option ℕ := some 25000000
  fetchAllChunks : Bool := true
  maxChunks : Option ℕ := some 50

def ExecuteOptions.limits (opts : ExecuteOptions) : Limits := ⟨opts.rowLimit, opts.byteLimit⟩

def appendLimitedRows (opts : ExecuteOptions) (acc : Collected ρ) (chunkRows : List ρ) :
    Collected ρ :=
  collect size opts.limits acc chunkRows

/-- The state of the chunk loop. -/
structure ChunkProgress (ρ : Type) where
  acc : Collected ρ
  included : List ℕ
  fetched : ℕ

def fetchChunks (fetch : ℕ → Option (List ρ)) (opts : ExecuteOptions) (progress : ChunkProgress ρ) :
    List ℕ → ChunkProgress ρ
  | [] => progress
  | index :: indices =>
      if progress.acc.truncated then progress
      else if index ∈ progress.included then fetchChunks fetch opts progress indices
      else
        let acc :=
          match fetch index with
          | some data => appendLimitedRows size opts progress.acc data
          | none => progress.acc
        fetchChunks fetch opts ⟨acc, index :: progress.included, progress.fetched + 1⟩ indices

namespace StatementResponse

def inlineData (resp : StatementResponse ρ) : Option (List ρ) :=
  resp.result.bind ResultData.dataArray

def inlineIndex (resp : StatementResponse ρ) : Option ℕ := resp.result.bind ResultData.chunkIndex

def chunkIndices (resp : StatementResponse ρ) : List ℕ :=
  match resp.manifest with
  | some manifest => manifest.chunkIndices.insertionSort (· ≤ ·)
  | none => []

end StatementResponse

def ExecuteOptions.chunkCap (opts : ExecuteOptions) : ℕ := opts.maxChunks.getD 50

def processDatabricksSuccess (fetch : ℕ → Option (List ρ)) (resp : StatementResponse ρ)
    (opts : ExecuteOptions) : QueryResult ρ :=
  let providerTruncated := (resp.manifest.bind ResultManifest.truncated).getD false
  let acc :=
    match resp.inlineData with
    | some data => appendLimitedRows size opts {} data
    | none => {}
  let included := resp.inlineIndex.toList
  let start : ChunkProgress ρ := ⟨acc, included, included.length⟩
  let progress :=
    if opts.fetchAllChunks && !resp.chunkIndices.isEmpty && !acc.truncated then
      fetchChunks size fetch opts start (resp.chunkIndices.take opts.chunkCap)
    else start
  ⟨progress.acc.items, providerTruncated || progress.acc.truncated, progress.fetched⟩

/-! ## BigQuery and Snowflake -/

structure ExecuteSettings where
  rowLimit : ℕ
  byteLimit : ℕ
  fetchAllChunks : Bool
  maxChunks : ℕ

def ExecuteSettings.limits (settings : ExecuteSettings) : Limits :=
  ⟨some settings.rowLimit, some settings.byteLimit⟩

def appendRows (settings : ExecuteSettings) (acc : Collected ρ) (chunkRows : List ρ) :
    Collected ρ :=
  collect size settings.limits acc chunkRows

/-- The loop over the responses behind the first one; only a response with data
counts towards the cap. -/
def fetchRest (settings : ExecuteSettings) (acc : Collected ρ) (fetched : ℕ) :
    List (Option (List ρ)) → Collected ρ × ℕ
  | [] => (acc, fetched)
  | page :: pages =>
      if acc.truncated then (acc, fetched)
      else if settings.maxChunks ≤ fetched then ({ acc with truncated := true }, fetched)
      else
        match page with
        | some rows => fetchRest settings (appendRows size settings acc rows) (fetched + 1) pages
        | none => fetchRest settings acc fetched pages

/-- The body the two providers share: `rest` are the responses still to fetch. -/
def fetchPaged (settings : ExecuteSettings) (first : Option (List ρ))
    (rest : List (Option (List ρ))) : QueryResult ρ :=
  let acc :=
    match first with
    | some rows => appendRows size settings {} rows
    | none => {}
  let fetched := if first.isSome then 1 else 0
  if settings.fetchAllChunks then
    let (acc, fetched) := fetchRest size settings acc fetched rest
    ⟨acc.items, acc.truncated, fetched⟩
  else ⟨acc.items, acc.truncated || !rest.isEmpty, fetched⟩

/-- A page has a token for the next one exactly when there is one. -/
def executeBigqueryStatement (settings : ExecuteSettings) (first : Option (List ρ))
    (pages : List (Option (List ρ))) : QueryResult ρ :=
  fetchPaged size settings first pages

/-- Inline data counts as the first partition. -/
def processSnowflakeSuccess (settings : ExecuteSettings) (inline : Option (List ρ))
    (partitions : List (Option (List ρ))) : QueryResult ρ :=
  fetchPaged size settings inline (partitions.drop (if inline.isSome then 1 else 0))

/-! ## What reaches the caller

A provider's rows come in an order fixed by its responses, `shown`. The two
lemmas say what the limits make of that order: a front of the result is safe
exactly when it is all or the flag is set, and an order that leaves the result
is safe exactly when the first row out of place no longer fits.
-/

section Shown

variable {size} {limits : Limits} {shown full : List ρ} {acc : Collected ρ}

theorem noSilentLoss_front (provider : Bool) (fetched : ℕ) (hshown : shown <+: full)
    (hacc : Collects size limits shown acc) :
    NoSilentLoss full limits.count ⟨acc.items, provider || acc.truncated, fetched⟩ ↔
      provider = true ∨ ¬ Fits size limits shown ∨ shown = full := by
  constructor
  · intro h
    by_cases hprovider : provider = true
    · exact .inl hprovider
    by_cases hfits : Fits size limits shown
    · have hflag : acc.truncated = false := by
        by_contra htrue
        exact hacc.flag.mp (by simpa using htrue) hfits
      have hall : acc.items = full := h.whole (by simp [hprovider, hflag])
      exact .inr (.inr (by rw [← hall, hacc.eq_of_not_truncated hflag]))
    · exact .inr (.inl hfits)
  · intro h
    refine ⟨hacc.front.trans hshown, hacc.fits.1, ?_⟩
    intro hflag
    obtain ⟨hprovider, hlocal⟩ : provider = false ∧ acc.truncated = false := by simpa using hflag
    rcases h with h | h | h
    · simp [hprovider] at h
    · simp [hacc.flag.mpr h] at hlocal
    · exact (hacc.eq_of_not_truncated hlocal).trans h

theorem noSilentLoss_astray {front rest : List ρ} {row : ρ} (provider : Bool) (fetched : ℕ)
    (hshown : shown = front ++ row :: rest) (hfront : front <+: full)
    (hrow : ¬ front ++ [row] <+: full) (hacc : Collects size limits shown acc) :
    NoSilentLoss full limits.count ⟨acc.items, provider || acc.truncated, fetched⟩ ↔
      ¬ Fits size limits (front ++ [row]) := by
  have hnext : front ++ [row] <+: shown := ⟨rest, by simp [hshown]⟩
  constructor
  · intro h hfits
    exact hrow ((hacc.longest _ hnext hfits).trans h.front)
  · intro hstop
    have hflag : acc.truncated = true :=
      hacc.flag.mpr fun hall => hstop (hall.mono hnext)
    have hshort : acc.items.length ≤ front.length := by
      by_contra hlong
      have hle : (front ++ [row]).length ≤ acc.items.length := by
        simp only [List.length_append, List.length_singleton]
        omega
      exact hstop (hacc.fits.mono (List.prefix_of_prefix_length_le hnext hacc.front hle))
    have hitems : acc.items <+: front :=
      List.prefix_of_prefix_length_le hacc.front ((List.prefix_append _ _).trans hnext) hshort
    exact ⟨hitems.trans hfront, hacc.fits.1, fun h => by simp [hflag] at h⟩

end Shown

/-! ## The Databricks chunks -/

def StatementResponse.providerTruncated (resp : StatementResponse ρ) : Bool :=
  (resp.manifest.bind ResultManifest.truncated).getD false

def StatementResponse.inlineRows (resp : StatementResponse ρ) : List ρ := resp.inlineData.getD []

/-- The responses of a server that holds `full` and serves it as `chunks`: a result
cut short is reported in the manifest, every chunk is answered by its index, and
inline rows are the chunk their index names, the first one without an index. -/
structure DatabricksAnswers (full : List ρ) (chunks : List (List ρ))
    (fetch : ℕ → Option (List ρ)) (resp : StatementResponse ρ) : Prop where
  served : chunks.flatten <+: full
  complete : resp.providerTruncated = false → chunks.flatten = full
  fetched : ∀ index, (fetch index).getD [] = chunks.getD index []
  listed : ∀ manifest ∈ resp.manifest, manifest.chunkIndices.Perm (List.range chunks.length)
  inline : resp.inlineData.isSome ∨ resp.inlineIndex.isSome →
    resp.inlineRows = chunks.getD (resp.inlineIndex.getD 0) []

/-- How many of the listed chunks the loop goes through. -/
def listedChunks (resp : StatementResponse ρ) (opts : ExecuteOptions) : ℕ :=
  if opts.fetchAllChunks && resp.manifest.isSome then opts.chunkCap else 0

/-- The inline rows come without their index, and the loop reaches them again. -/
def Refetched (resp : StatementResponse ρ) (opts : ExecuteOptions) : Prop :=
  resp.inlineIndex = none ∧ 0 < listedChunks resp opts

/-- Rows of earlier chunks are missing before the inline rows. -/
def Misplaced (chunks : List (List ρ)) (resp : StatementResponse ρ) : Prop :=
  (chunks.take (resp.inlineIndex.getD 0)).flatten ≠ []

/-- The number of chunks from the first one on that are read. -/
def readChunks (resp : StatementResponse ρ) (opts : ExecuteOptions) : ℕ :=
  max (if resp.inlineRows = [] then 0 else resp.inlineIndex.getD 0 + 1) (listedChunks resp opts)

/-- The rows in the order in which they are read. -/
def shownRows (chunks : List (List ρ)) (resp : StatementResponse ρ) (opts : ExecuteOptions) :
    List ρ :=
  resp.inlineRows ++
    (((List.range chunks.length).take (listedChunks resp opts)).filter
      (· ∉ resp.inlineIndex.toList)).flatMap (chunks.getD · [])

section Databricks

variable {size} {full : List ρ} {chunks : List (List ρ)} {fetch : ℕ → Option (List ρ)}
  {resp : StatementResponse ρ} {opts : ExecuteOptions}

theorem appendLimitedRows_optional (acc : Collected ρ) (data : Option (List ρ)) :
    (match data with
      | some rows => appendLimitedRows size opts acc rows
      | none => acc) = collect size opts.limits acc (data.getD []) := by
  cases data <;> rfl

theorem fetchChunks_acc (progress : ChunkProgress ρ) {indices : List ℕ} (hindices : indices.Nodup) :
    (fetchChunks size fetch opts progress indices).acc =
      collectAll size opts.limits progress.acc
        ((indices.filter (· ∉ progress.included)).map fun index => (fetch index).getD []) := by
  induction indices generalizing progress with
  | nil => rfl
  | cons index indices ih =>
      obtain ⟨hindex, hrest⟩ := List.nodup_cons.mp hindices
      rw [fetchChunks]
      split
      · rename_i hflag
        cases hpieces : (((index :: indices).filter (· ∉ progress.included)).map
          fun index => (fetch index).getD []) <;> simp [collectAll, hflag]
      · rename_i hflag
        split
        · rename_i hmem
          rw [ih progress hrest, List.filter_cons_of_neg (by simpa using hmem)]
        · rename_i hmem
          have hkept : indices.filter (· ∉ index :: progress.included) =
              indices.filter (· ∉ progress.included) := by
            apply List.filter_congr
            intro other hother
            have hne : other ≠ index := fun h => hindex (h ▸ hother)
            simp [hne]
          rw [appendLimitedRows_optional, ih _ hrest,
            List.filter_cons_of_pos (by simpa using hmem), List.map_cons, collectAll]
          simp only [hkept, hflag, Bool.false_eq_true, if_false]

theorem chunkIndices_eq (hanswers : DatabricksAnswers full chunks fetch resp) :
    resp.chunkIndices = if resp.manifest.isSome then List.range chunks.length else [] := by
  rw [StatementResponse.chunkIndices]
  cases hmanifest : resp.manifest with
  | none => rfl
  | some manifest =>
      have hperm : (manifest.chunkIndices.insertionSort (· ≤ ·)).Perm (List.range chunks.length) :=
        (List.perm_insertionSort _ _).trans (hanswers.listed manifest hmanifest)
      exact hperm.eq_of_pairwise (fun _ _ _ _ => Nat.le_antisymm)
        (List.pairwise_insertionSort _ _) List.pairwise_le_range

/-- The chunk loop, or its being skipped, over what the server lists. -/
theorem chunkProgress_acc (hanswers : DatabricksAnswers full chunks fetch resp)
    (start : ChunkProgress ρ) :
    (if opts.fetchAllChunks && !resp.chunkIndices.isEmpty && !start.acc.truncated then
        fetchChunks size fetch opts start (resp.chunkIndices.take opts.chunkCap)
      else start).acc =
      collectAll size opts.limits start.acc
        ((((List.range chunks.length).take (listedChunks resp opts)).filter
          (· ∉ start.included)).map (chunks.getD · [])) := by
  have hfetch : (fun index => (fetch index).getD []) = (chunks.getD · []) :=
    funext hanswers.fetched
  rw [chunkIndices_eq hanswers]
  cases hflag : start.acc.truncated with
  | true =>
      cases hpieces : ((((List.range chunks.length).take (listedChunks resp opts)).filter
        (· ∉ start.included)).map (chunks.getD · [])) <;> simp [collectAll, hflag]
  | false =>
      by_cases hall : opts.fetchAllChunks = true ∧ resp.manifest.isSome = true
      · have hlisted : listedChunks resp opts = opts.chunkCap := by simp [listedChunks, hall]
        have hnodup : ((List.range chunks.length).take opts.chunkCap).Nodup :=
          List.nodup_range.sublist (List.take_sublist _ _)
        rw [hlisted, if_pos hall.2, ← hfetch, ← fetchChunks_acc _ hnodup]
        by_cases hnone : chunks.length = 0
        · simp [hnone, fetchChunks]
        · simp [hall.1, hnone]
      · have hlisted : listedChunks resp opts = 0 := by simp_all [listedChunks]
        have hskip : (opts.fetchAllChunks &&
            !(if resp.manifest.isSome = true then List.range chunks.length else []).isEmpty) =
            false := by
          by_cases hmanifest : resp.manifest.isSome = true <;> simp_all
        simp [hlisted, hskip, collectAll]

theorem processDatabricksSuccess_spec (hanswers : DatabricksAnswers full chunks fetch resp) :
    ∃ acc fetched, Collects size opts.limits (shownRows chunks resp opts) acc ∧
      processDatabricksSuccess size fetch resp opts =
        ⟨acc.items, resp.providerTruncated || acc.truncated, fetched⟩ := by
  have hongoing : Ongoing size opts.limits ({} : Collected ρ) := empty_ongoing
  have hcollects := collectAll_spec hongoing
    (resp.inlineRows :: (((List.range chunks.length).take (listedChunks resp opts)).filter
      (· ∉ resp.inlineIndex.toList)).map (chunks.getD · []))
  rw [List.nil_append, List.flatten_cons, ← List.flatMap_def, collectAll,
    if_neg (by simp)] at hcollects
  rw [processDatabricksSuccess]
  simp only [appendLimitedRows_optional]
  refine ⟨_, _, ?_, rfl⟩
  rw [chunkProgress_acc hanswers
    ⟨_, resp.inlineIndex.toList, resp.inlineIndex.toList.length⟩]
  exact hcollects

theorem flatMap_getD_range (chunks : List (List ρ)) (count : ℕ) :
    (List.range count).flatMap (chunks.getD · []) = (chunks.take count).flatten := by
  induction count with
  | zero => simp
  | succ count ih =>
      rw [List.range_succ, List.flatMap_append, ih, List.take_add_one, List.flatten_append]
      cases hchunk : chunks[count]? <;> simp [List.getD, hchunk]

theorem flatMap_skip_empty {f : ℕ → List ρ} {index : ℕ} (hindex : f index = [])
    (indices : List ℕ) : (indices.filter (· ∉ [index])).flatMap f = indices.flatMap f := by
  induction indices with
  | nil => rfl
  | cons other indices ih =>
      by_cases hother : other = index
      · rw [List.filter_cons_of_neg (by simp [hother]), ih, List.flatMap_cons, hother, hindex,
          List.nil_append]
      · rw [List.filter_cons_of_pos (by simp [hother]), List.flatMap_cons, ih, List.flatMap_cons]

/-- A piece in front of the others may come first when nothing is before it. -/
theorem flatMap_range_advance {f : ℕ → List ρ} {index : ℕ} (hbefore : ∀ i < index, f i = [])
    (count : ℕ) :
    f index ++ ((List.range count).filter (· ∉ [index])).flatMap f =
      (List.range (max (index + 1) count)).flatMap f := by
  induction count with
  | zero =>
      have hempty : (List.range index).flatMap f = [] := by
        simpa [List.flatMap_eq_nil_iff] using hbefore
      simp [List.range_succ, List.flatMap_append, hempty]
  | succ count ih =>
      rw [List.range_succ, List.filter_append, List.flatMap_append, ← List.append_assoc, ih]
      rcases Nat.lt_trichotomy count index with hlt | heq | hgt
      · have hmax : max (index + 1) count = max (index + 1) (count + 1) := by omega
        simp [hbefore count hlt, hmax]
      · have hmax : max (index + 1) count = max (index + 1) (count + 1) := by omega
        simp [heq]
      · have hne : count ≠ index := by omega
        have hmax : max (index + 1) count = count := by omega
        have hmax' : max (index + 1) (count + 1) = count + 1 := by omega
        simp [hne, hmax, hmax', List.range_succ]

theorem flatMap_getD_listed (chunks : List (List ρ)) (count : ℕ) :
    ((List.range chunks.length).take count).flatMap (chunks.getD · []) =
      (chunks.take count).flatten := by
  rw [List.take_range, flatMap_getD_range, ← List.take_eq_take_min]

theorem DatabricksAnswers.inlineRows_eq (hanswers : DatabricksAnswers full chunks fetch resp)
    (hrows : resp.inlineRows ≠ []) :
    resp.inlineRows = chunks.getD (resp.inlineIndex.getD 0) [] := by
  apply hanswers.inline
  left
  cases hdata : resp.inlineData <;> simp_all [StatementResponse.inlineRows]

/-- Chunks read from the first one on, each once, are a front of the result. -/
theorem shownRows_eq (hanswers : DatabricksAnswers full chunks fetch resp)
    (hsafe : resp.inlineRows = [] ∨ ¬ Misplaced chunks resp ∧ ¬ Refetched resp opts) :
    shownRows chunks resp opts = (chunks.take (readChunks resp opts)).flatten := by
  have hlisted := flatMap_getD_listed chunks (listedChunks resp opts)
  cases hindex : resp.inlineIndex with
  | none =>
      by_cases hrows : resp.inlineRows = []
      · simpa [shownRows, readChunks, hindex, hrows] using hlisted
      · have hnone : listedChunks resp opts = 0 := by
          have hnot := (hsafe.resolve_left hrows).2
          simpa [Refetched, hindex] using hnot
        rw [shownRows, readChunks, if_neg hrows, hnone, hindex, hanswers.inlineRows_eq hrows,
          hindex]
        cases chunks <;> simp
  | some index =>
      have hinline : resp.inlineRows = chunks.getD index [] := by
        simpa [hindex] using hanswers.inline (.inr (by simp [hindex]))
      by_cases hrows : resp.inlineRows = []
      · rw [shownRows, hrows, hindex, List.nil_append, Option.toList_some,
          flatMap_skip_empty (hinline ▸ hrows), hlisted, readChunks, if_pos hrows]
        simp
      · have hbefore : ∀ i < index, chunks.getD i [] = [] := by
          have hnot := (hsafe.resolve_left hrows).1
          rw [Misplaced, not_not, hindex, ← flatMap_getD_range] at hnot
          simpa [List.flatMap_eq_nil_iff] using hnot
        rw [shownRows, hinline, hindex, Option.toList_some, List.take_range,
          flatMap_range_advance hbefore, flatMap_getD_range, readChunks, if_neg hrows, hindex]
        congr 1
        rw [Option.getD_some, List.take_eq_take_iff]
        omega

theorem flatten_split (chunks : List (List ρ)) (index : ℕ) :
    chunks.flatten = (chunks.take index).flatten ++
      (chunks.getD index [] ++ (chunks.drop (index + 1)).flatten) := by
  induction chunks generalizing index with
  | nil => simp
  | cons chunk chunks ih =>
      cases index with
      | zero => simp
      | succ index => simp [ih index]

/-- The rows of the earlier chunks are missing, so the first row shown is not the first row. -/
theorem misplaced_astray {row : ρ} {rows : List ρ} (hnodup : full.Nodup)
    (hanswers : DatabricksAnswers full chunks fetch resp) (hmisplaced : Misplaced chunks resp)
    (hrows : resp.inlineRows = row :: rows) : ¬ [row] <+: full := by
  intro hfirst
  have hinline : chunks.getD (resp.inlineIndex.getD 0) [] = row :: rows := by
    rw [← hanswers.inlineRows_eq (by simp [hrows]), hrows]
  have hsplit := flatten_split chunks (resp.inlineIndex.getD 0)
  rw [hinline] at hsplit
  obtain ⟨before, earlier, hbefore⟩ := List.exists_cons_of_ne_nil hmisplaced
  rw [hbefore] at hsplit
  have hserved : [before] <+: chunks.flatten := ⟨_, by rw [hsplit]; simp; rfl⟩
  have hrow : row = before := by
    have hsame := List.prefix_of_prefix_length_le hfirst (hserved.trans hanswers.served) (by simp)
    simpa using hsame
  have hserved : chunks.flatten.Nodup := hnodup.sublist hanswers.served.sublist
  rw [hsplit, hrow] at hserved
  simp at hserved

theorem refetched_astray {row : ρ} {rows : List ρ} (hnodup : full.Nodup) :
    ¬ (row :: rows) ++ [row] <+: full := by
  intro h
  have hfront : ((row :: rows) ++ [row]).Nodup := hnodup.sublist h.sublist
  simp at hfront

/-- When the Databricks path keeps its promise. -/
structure DatabricksReads (size : ρ → ℕ) (chunks : List (List ρ)) (resp : StatementResponse ρ)
    (opts : ExecuteOptions) : Prop where
  placed : Misplaced chunks resp →
    ∀ row ∈ resp.inlineRows.head?, ¬ Fits size opts.limits [row]
  once : Refetched resp opts →
    ∀ row ∈ resp.inlineRows.head?, ¬ Fits size opts.limits (resp.inlineRows ++ [row])
  reached : resp.inlineRows = [] ∨ ¬ Misplaced chunks resp ∧ ¬ Refetched resp opts →
    resp.providerTruncated = true ∨ (chunks.drop (readChunks resp opts)).flatten = [] ∨
      ¬ Fits size opts.limits (chunks.take (readChunks resp opts)).flatten

theorem front_eq_full_iff (hanswers : DatabricksAnswers full chunks fetch resp) (count : ℕ) :
    resp.providerTruncated = true ∨ (chunks.take count).flatten = full ↔
      resp.providerTruncated = true ∨ (chunks.drop count).flatten = [] := by
  cases hprovider : resp.providerTruncated with
  | true => simp
  | false =>
      rw [← hanswers.complete hprovider]
      conv_lhs => rw [← List.take_append_drop count chunks, List.flatten_append]
      simp

theorem databricks_front {acc : Collected ρ} (fetched : ℕ)
    (hanswers : DatabricksAnswers full chunks fetch resp)
    (hsafe : resp.inlineRows = [] ∨ ¬ Misplaced chunks resp ∧ ¬ Refetched resp opts)
    (hacc : Collects size opts.limits (shownRows chunks resp opts) acc) :
    NoSilentLoss full opts.rowLimit
        ⟨acc.items, resp.providerTruncated || acc.truncated, fetched⟩ ↔
      DatabricksReads size chunks resp opts := by
  rw [shownRows_eq hanswers hsafe] at hacc
  have hfront : (chunks.take (readChunks resp opts)).flatten <+: full := by
    refine List.IsPrefix.trans ⟨(chunks.drop (readChunks resp opts)).flatten, ?_⟩ hanswers.served
    rw [← List.flatten_append, List.take_append_drop]
  have hplaced : Misplaced chunks resp →
      ∀ row ∈ resp.inlineRows.head?, ¬ Fits size opts.limits [row] := by
    intro h row hrow
    rcases hsafe with hnone | hsafe
    · simp [hnone] at hrow
    · exact absurd h hsafe.1
  have honce : Refetched resp opts →
      ∀ row ∈ resp.inlineRows.head?, ¬ Fits size opts.limits (resp.inlineRows ++ [row]) := by
    intro h row hrow
    rcases hsafe with hnone | hsafe
    · simp [hnone] at hrow
    · exact absurd h hsafe.2
  have hiff := noSilentLoss_front resp.providerTruncated fetched hfront hacc
  rw [← or_assoc, or_right_comm, front_eq_full_iff hanswers, or_assoc] at hiff
  exact hiff.trans ⟨fun h => ⟨hplaced, honce, fun _ => h⟩, fun h => h.reached hsafe⟩

theorem databricks_misplaced {acc : Collected ρ} {row : ρ} {rows : List ρ} (fetched : ℕ)
    (hnodup : full.Nodup) (hanswers : DatabricksAnswers full chunks fetch resp)
    (hrows : resp.inlineRows = row :: rows) (hmisplaced : Misplaced chunks resp)
    (hacc : Collects size opts.limits (shownRows chunks resp opts) acc) :
    NoSilentLoss full opts.rowLimit
        ⟨acc.items, resp.providerTruncated || acc.truncated, fetched⟩ ↔
      DatabricksReads size chunks resp opts := by
  have hindex : ¬ Refetched resp opts := by
    intro h
    simp [Misplaced, h.1] at hmisplaced
  have hshown : ∃ rest, shownRows chunks resp opts = [] ++ row :: rest := by
    simp [shownRows, hrows]
  obtain ⟨rest, hshown⟩ := hshown
  have hiff := noSilentLoss_astray resp.providerTruncated fetched hshown List.nil_prefix
    (misplaced_astray hnodup hanswers hmisplaced hrows) hacc
  refine hiff.trans ⟨fun h => ⟨?_, fun h => absurd h hindex, ?_⟩, fun h => ?_⟩
  · simpa [hrows] using fun _ => h
  · simp [hrows, hmisplaced]
  · exact h.placed hmisplaced row (by simp [hrows])

theorem databricks_refetched {acc : Collected ρ} {row : ρ} {rows : List ρ} (fetched : ℕ)
    (hnodup : full.Nodup) (hanswers : DatabricksAnswers full chunks fetch resp)
    (hrows : resp.inlineRows = row :: rows) (hrefetched : Refetched resp opts)
    (hacc : Collects size opts.limits (shownRows chunks resp opts) acc) :
    NoSilentLoss full opts.rowLimit
        ⟨acc.items, resp.providerTruncated || acc.truncated, fetched⟩ ↔
      DatabricksReads size chunks resp opts := by
  obtain ⟨hindex, hlisted⟩ := hrefetched
  have hplaced : ¬ Misplaced chunks resp := by simp [Misplaced, hindex]
  have hchunk : chunks.getD 0 [] = row :: rows := by
    rw [← hrows, hanswers.inlineRows_eq (by simp [hrows]), hindex, Option.getD_none]
  obtain ⟨chunk, others, rfl⟩ : ∃ chunk others, chunks = chunk :: others := by
    cases chunks <;> simp at hchunk ⊢
  have hfirst : chunk = row :: rows := by simpa using hchunk
  subst hfirst
  obtain ⟨count, hcount⟩ : ∃ count, listedChunks resp opts = count + 1 :=
    Nat.exists_eq_add_one.mpr hlisted
  have hshown : shownRows ((row :: rows) :: others) resp opts =
      (row :: rows) ++ row :: (rows ++ (others.take count).flatten) := by
    rw [shownRows, hrows, hindex, Option.toList_none, List.filter_eq_self.mpr (by simp),
      flatMap_getD_listed, hcount]
    simp
  have hfront : row :: rows <+: full :=
    (List.prefix_append (row :: rows) others.flatten).trans hanswers.served
  have hiff := noSilentLoss_astray resp.providerTruncated fetched hshown hfront
    (refetched_astray hnodup) hacc
  refine hiff.trans ⟨fun h => ⟨fun h => absurd h hplaced, ?_, ?_⟩, fun h => ?_⟩
  · simpa [hrows] using fun _ => h
  · simp [hrows, Refetched, hindex, hlisted]
  · rw [← hrows]
    exact h.once ⟨hindex, hlisted⟩ row (by simp [hrows])

theorem processDatabricksSuccess_iff (hnodup : full.Nodup)
    (hanswers : DatabricksAnswers full chunks fetch resp) :
    NoSilentLoss full opts.rowLimit (processDatabricksSuccess size fetch resp opts) ↔
      DatabricksReads size chunks resp opts := by
  obtain ⟨acc, fetched, hacc, hout⟩ := processDatabricksSuccess_spec hanswers
  rw [hout]
  cases hrows : resp.inlineRows with
  | nil => exact databricks_front fetched hanswers (.inl hrows) hacc
  | cons row rows =>
      by_cases hmisplaced : Misplaced chunks resp
      · exact databricks_misplaced fetched hnodup hanswers hrows hmisplaced hacc
      by_cases hrefetched : Refetched resp opts
      · exact databricks_refetched fetched hnodup hanswers hrows hrefetched hacc
      · exact databricks_front fetched hanswers (.inr ⟨hmisplaced, hrefetched⟩) hacc

end Databricks

/-! ## The BigQuery pages and the Snowflake partitions -/

/-- The rows of the responses, where one without data has none. -/
def pageRows (pages : List (Option (List ρ))) : List ρ := (pages.map (·.getD [])).flatten

/-- A response is left out: further ones are not fetched, or those with data reach
the cap before the last one. -/
def StopsEarly (settings : ExecuteSettings) (first : Option (List ρ))
    (rest : List (Option (List ρ))) : Prop :=
  rest ≠ [] ∧ (settings.fetchAllChunks = true →
    settings.maxChunks ≤ (first :: rest.dropLast).countP Option.isSome)

section Pages

variable {size} {settings : ExecuteSettings} {served full : List ρ} {first : Option (List ρ)}
  {rest : List (Option (List ρ))}

theorem appendRows_optional (acc : Collected ρ) (data : Option (List ρ)) :
    (match data with
      | some rows => appendRows size settings acc rows
      | none => acc) = collect size settings.limits acc (data.getD []) := by
  cases data <;> rfl

/-- A front of the rows, marked as one exactly when it may be shorter. -/
structure PagesRead (size : ρ → ℕ) (settings : ExecuteSettings) (whole : List ρ) (stop : Prop)
    (acc : Collected ρ) : Prop where
  front : acc.items <+: whole
  fits : Fits size settings.limits acc.items
  complete : acc.truncated = false → acc.items = whole
  flag : acc.truncated = true ↔ stop ∨ ¬ Fits size settings.limits whole

theorem fetchRest_cons (acc : Collected ρ) (fetched : ℕ) (page : Option (List ρ))
    (pages : List (Option (List ρ))) :
    fetchRest size settings acc fetched (page :: pages) =
      if acc.truncated then (acc, fetched)
      else if settings.maxChunks ≤ fetched then ({ acc with truncated := true }, fetched)
      else
        fetchRest size settings (collect size settings.limits acc (page.getD []))
          (fetched + page.toList.length) pages := by
  cases page <;> rfl

/-- The cap is still ahead after one more response. -/
theorem cap_step {cap fetched : ℕ} (hcap : ¬ cap ≤ fetched) (page : Option (List ρ))
    (pages : List (Option (List ρ))) :
    (pages ≠ [] ∧ cap ≤ fetched + page.toList.length + pages.dropLast.countP Option.isSome) ↔
      (page :: pages ≠ [] ∧ cap ≤ fetched + (page :: pages).dropLast.countP Option.isSome) := by
  cases pages with
  | nil => simpa using hcap
  | cons next pages =>
      cases page <;> simp [Nat.add_assoc, Nat.add_comm 1]

theorem fetchRest_spec {acc : Collected ρ} {shown : List ρ} (fetched : ℕ)
    (rest : List (Option (List ρ)))
    (hacc : Collects size settings.limits shown acc)
    (hongoing : acc.truncated = false → Ongoing size settings.limits acc) :
    PagesRead size settings (shown ++ pageRows rest)
      (rest ≠ [] ∧ settings.maxChunks ≤ fetched + rest.dropLast.countP Option.isSome)
      (fetchRest size settings acc fetched rest).1 := by
  induction rest generalizing acc shown fetched with
  | nil =>
      have hshown : shown ++ pageRows ([] : List (Option (List ρ))) = shown := by simp [pageRows]
      rw [hshown, fetchRest]
      exact ⟨hacc.front, hacc.fits, hacc.eq_of_not_truncated, by simpa using hacc.flag⟩
  | cons page pages ih =>
      have hrows : shown ++ pageRows (page :: pages) = shown ++ page.getD [] ++ pageRows pages := by
        simp [pageRows]
      rw [fetchRest_cons]
      by_cases hflag : acc.truncated = true
      · rw [if_pos hflag]
        have hall : Collects size settings.limits (shown ++ pageRows (page :: pages)) acc :=
          hacc.extend hflag
        exact ⟨hall.front, hall.fits, hall.eq_of_not_truncated,
          iff_of_true hflag (.inr (hall.flag.mp hflag))⟩
      have hflag' : acc.truncated = false := by simpa using hflag
      rw [if_neg hflag]
      by_cases hcap : settings.maxChunks ≤ fetched
      · rw [if_pos hcap]
        refine ⟨hacc.front.trans (List.prefix_append _ _), hacc.fits, fun h => by simp at h, ?_⟩
        exact iff_of_true rfl (.inl ⟨List.cons_ne_nil _ _, Nat.le_add_right_of_le hcap⟩)
      · rw [if_neg hcap, hrows, ← cap_step hcap]
        obtain ⟨hnext, hmore⟩ := collect_spec (hongoing hflag') (page.getD [])
        rw [hacc.eq_of_not_truncated hflag'] at hnext
        exact ih _ hnext fun h => (hmore h).1

theorem fetchPaged_spec (size : ρ → ℕ) (settings : ExecuteSettings) (first : Option (List ρ))
    (rest : List (Option (List ρ))) :
    ∃ acc fetched, PagesRead size settings (pageRows (first :: rest))
        (StopsEarly settings first rest) acc ∧
      fetchPaged size settings first rest = ⟨acc.items, acc.truncated, fetched⟩ := by
  have hempty : Ongoing size settings.limits ({} : Collected ρ) := empty_ongoing
  obtain ⟨hfirst, hongoing⟩ := collect_spec hempty (first.getD [])
  have hrows : pageRows (first :: rest) = first.getD [] ++ pageRows rest := by simp [pageRows]
  have hcount : (if first.isSome then 1 else 0) + rest.dropLast.countP Option.isSome =
      (first :: rest.dropLast).countP Option.isSome := by
    cases first <;> simp [Nat.add_comm]
  rw [List.nil_append] at hfirst
  unfold fetchPaged
  simp only [appendRows_optional]
  by_cases hall : settings.fetchAllChunks = true
  · have hrest := fetchRest_spec (if first.isSome then 1 else 0) rest hfirst
      fun h => (hongoing h).1
    rw [hcount, ← hrows] at hrest
    rw [if_pos hall]
    refine ⟨_, _, ?_, rfl⟩
    simpa [StopsEarly, hall] using hrest
  · rw [if_neg hall]
    refine ⟨{ collect size settings.limits {} (first.getD []) with
      truncated := (collect size settings.limits {} (first.getD [])).truncated || !rest.isEmpty },
      _, ⟨?_, hfirst.fits, ?_, ?_⟩, rfl⟩
    · rw [hrows]
      exact hfirst.front.trans (List.prefix_append _ _)
    · intro h
      obtain ⟨hflag, hnone⟩ : _ ∧ rest = [] := by simpa using h
      have hitems := hfirst.eq_of_not_truncated hflag
      simpa [hrows, hnone, pageRows] using hitems
    · by_cases hnone : rest = []
      · simpa [StopsEarly, hnone, hrows, pageRows] using hfirst.flag
      · simp [StopsEarly, hall, hnone]

/-- Nothing of what the responses hold is lost silently. -/
theorem fetchPaged_served :
    NoSilentLoss (pageRows (first :: rest)) (some settings.rowLimit)
      (fetchPaged size settings first rest) := by
  obtain ⟨acc, fetched, hread, hout⟩ := fetchPaged_spec size settings first rest
  rw [hout]
  exact ⟨hread.front, hread.fits.1, hread.complete⟩

/-- The rows a Snowflake server hands out; inline rows alone when it lists no partition. -/
def servedRows (inline : Option (List ρ)) (partitions : List (Option (List ρ))) : List ρ :=
  if partitions = [] then inline.getD [] else pageRows partitions

/-- The responses of a server that holds `full`: the inline rows are the first
partition, and all of them together are the result up to the requested
`rows_per_resultset`. -/
structure SnowflakeAnswers (full : List ρ) (rowLimit : ℕ) (inline : Option (List ρ))
    (partitions : List (Option (List ρ))) : Prop where
  first : ∀ rows ∈ inline, ∀ page ∈ partitions.head?, page.getD [] = rows
  served : servedRows inline partitions <+: full
  bounded : (servedRows inline partitions).length ≤ rowLimit
  complete : full.length ≤ rowLimit → servedRows inline partitions = full

/-- The partitions still to fetch behind inline data. -/
def restPartitions (inline : Option (List ρ)) (partitions : List (Option (List ρ))) :
    List (Option (List ρ)) :=
  partitions.drop (if inline.isSome then 1 else 0)

theorem pageRows_restPartitions {rowLimit : ℕ} {inline : Option (List ρ)}
    {partitions : List (Option (List ρ))}
    (hanswers : SnowflakeAnswers full rowLimit inline partitions) :
    pageRows (inline :: restPartitions inline partitions) = servedRows inline partitions := by
  cases inline with
  | none => cases partitions <;> simp [pageRows, restPartitions, servedRows]
  | some rows =>
      cases partitions with
      | nil => simp [pageRows, restPartitions, servedRows]
      | cons page partitions =>
          have hfirst : page.getD [] = rows := hanswers.first rows rfl page rfl
          simp [pageRows, restPartitions, servedRows, hfirst]

theorem processSnowflakeSuccess_iff {inline : Option (List ρ)}
    {partitions : List (Option (List ρ))}
    (hanswers : SnowflakeAnswers full settings.rowLimit inline partitions) :
    NoSilentLoss full (some settings.rowLimit)
        (processSnowflakeSuccess size settings inline partitions) ↔
      full.length ≤ settings.rowLimit ∨
        StopsEarly settings inline (restPartitions inline partitions) ∨
        ¬ Fits size settings.limits (servedRows inline partitions) := by
  obtain ⟨acc, fetched, hread, hout⟩ :=
    fetchPaged_spec size settings inline (restPartitions inline partitions)
  rw [pageRows_restPartitions hanswers] at hread
  have hresult : processSnowflakeSuccess size settings inline partitions =
      ⟨acc.items, acc.truncated, fetched⟩ := hout
  rw [hresult, ← hread.flag]
  constructor
  · intro h
    cases hflag : acc.truncated with
    | true => exact .inr rfl
    | false =>
        have hall : acc.items = full := h.whole hflag
        exact .inl (hall ▸ h.bounded _ rfl)
  · intro h
    refine ⟨hread.front.trans hanswers.served, hread.fits.1, ?_⟩
    intro hflag
    rcases h with hsmall | htrue
    · exact (hread.complete hflag).trans (hanswers.complete hsmall)
    · simp [htrue] at hflag

end Pages

/-- When the three success paths lose no row of a result silently: always with
BigQuery, and with the other two exactly as far as the flag follows what is left
out. -/
theorem noSilentLoss_iff {ρ : Type} (size : ρ → ℕ) (full : ResultSet ρ) :
    (∀ chunks fetch resp opts, DatabricksAnswers full.rows chunks fetch resp →
      (NoSilentLoss full.rows opts.rowLimit (processDatabricksSuccess size fetch resp opts) ↔
        DatabricksReads size chunks resp opts)) ∧
    (∀ settings first pages, pageRows (first :: pages) = full.rows →
      NoSilentLoss full.rows (some settings.rowLimit)
        (executeBigqueryStatement size settings first pages)) ∧
    ∀ settings inline partitions,
      SnowflakeAnswers full.rows settings.rowLimit inline partitions →
        (NoSilentLoss full.rows (some settings.rowLimit)
            (processSnowflakeSuccess size settings inline partitions) ↔
          full.rows.length ≤ settings.rowLimit ∨
            StopsEarly settings inline (restPartitions inline partitions) ∨
            ¬ Fits size settings.limits (servedRows inline partitions)) := by
  refine ⟨?_, ?_, ?_⟩
  · intro chunks fetch resp opts hanswers
    exact processDatabricksSuccess_iff full.nodup hanswers
  · intro settings first pages hpages
    rw [← hpages]
    exact fetchPaged_served
  · intro settings inline partitions hanswers
    exact processSnowflakeSuccess_iff hanswers

/-! A result of two rows in two chunks. -/

def twoRows : ResultSet ℕ := ⟨[1, 2], by decide⟩

def twoChunks : List (List ℕ) := [[1], [2]]

def twoChunkResponse : StatementResponse ℕ where
  manifest := some { truncated := some false, chunkIndices := [0, 1] }
  result := some { dataArray := some [1], chunkIndex := some 0 }

theorem twoChunks_answers :
    DatabricksAnswers twoRows.rows twoChunks (fun index => twoChunks[index]?) twoChunkResponse where
  served := List.prefix_refl _
  complete := fun _ => rfl
  fetched := fun _ => rfl
  listed := by simp [twoChunkResponse, twoChunks, List.range_succ]
  inline := fun _ => rfl

def twoRowSettings : ExecuteSettings := ⟨100, 1000, true, 50⟩

theorem twoPartitions_answers :
    SnowflakeAnswers twoRows.rows twoRowSettings.rowLimit (some [1]) (twoChunks.map some) where
  first := by simp [twoChunks]
  served := List.prefix_refl _
  bounded := by decide
  complete := fun _ => rfl

theorem twoRows_kept :
    NoSilentLoss twoRows.rows (some 1000)
        (processDatabricksSuccess (fun _ => 8) (fun index => twoChunks[index]?)
          twoChunkResponse {}) ∧
      NoSilentLoss twoRows.rows (some 100)
        (executeBigqueryStatement (fun _ => 8) twoRowSettings (some [1]) [some [2]]) ∧
      NoSilentLoss twoRows.rows (some 100)
        (processSnowflakeSuccess (fun _ => 8) twoRowSettings (some [1]) (twoChunks.map some)) := by
  obtain ⟨hdatabricks, hbigquery, hsnowflake⟩ := noSilentLoss_iff (fun _ => 8) twoRows
  refine ⟨(hdatabricks _ _ _ {} twoChunks_answers).mpr ?_,
    hbigquery twoRowSettings (some [1]) [some [2]] rfl,
    (hsnowflake twoRowSettings _ _ twoPartitions_answers).mpr (.inl (by decide))⟩
  refine ⟨?_, ?_, fun _ => .inr (.inl rfl)⟩
  · simp [Misplaced, twoChunkResponse, StatementResponse.inlineIndex]
  · simp [Refetched, twoChunkResponse, StatementResponse.inlineIndex]

theorem chunkCap_loses_row :
    DatabricksAnswers twoRows.rows twoChunks (fun index => twoChunks[index]?) twoChunkResponse ∧
      ¬ NoSilentLoss twoRows.rows (some 1000)
        (processDatabricksSuccess (fun _ => 8) (fun index => twoChunks[index]?) twoChunkResponse
          { maxChunks := some 1 }) := by
  refine ⟨twoChunks_answers, fun h => ?_⟩
  have hall := h.whole rfl
  revert hall
  decide

end DbtNova.Warehouse
