import DbtNova.Error
import DbtNova.LabelCorrecting
import DbtNova.Text
import Mathlib.Data.List.Sort
import Mathlib.Data.Set.Card
import Mathlib.Data.String.Basic

/-!
# Lineage traversal

`get_lineage` of `tools/lineage.rs`: from a root along the parent or the child map, where
each entity of an allowed type costs one level and the others cost nothing. The result set
and the edge set of the source hold what their lists hold, so only the lists are kept.
-/
namespace DbtNova.Lineage
open Text

structure GetLineageParams where
  direction : String
  depth : Option ℕ
  resourceTypes : List String

structure LineageConfig where
  lineageMaxDepth : ℕ
  lineageMaxResults : ℕ

/-- The maps of `ManifestSearch` that the traversal reads. -/
structure LineageIndex where
  parentMap : List (String × List String)
  childMap : List (String × List String)
  resourceTypeById : List (String × String)

def lineageTypeAllowed (resourceType : Option String) (allowed : List String) : Bool :=
  if allowed.isEmpty then true
  else
    match resourceType with
    | none => false
    | some resourceType => allowed.any fun candidate => eqIgnoreAsciiCase candidate resourceType

structure Traversal where
  visitedDepth : String → Option ℕ
  result : List String
  edges : List (String × String)
  queue : List (String × ℕ)
  depthReached : ℕ
  truncated : Bool

/-- What a request traverses. -/
structure Request where
  map : List (String × List String)
  upstream : Bool
  allowed : String → Bool
  maxDepth : ℕ
  maxResults : ℕ

def shouldVisit (previous : Option ℕ) (nextDepth : ℕ) : Bool :=
  match previous with
  | some previousDepth => decide (nextDepth < previousDepth)
  | none => true

/-- The body of the loop over the related ids of `id`. -/
def visitRelated (request : Request) (id : String) (depthUsed : ℕ) (t : Traversal)
    (relId : String) : Traversal :=
  if t.truncated then t
  else
    let nextDepth := depthUsed + (request.allowed relId).toNat
    if request.maxDepth < nextDepth then t
    else if !shouldVisit (t.visitedDepth relId) nextDepth then t
    else
      let t :=
        { t with
          visitedDepth := Function.update t.visitedDepth relId (some nextDepth)
          queue := t.queue ++ [(relId, nextDepth)] }
      if request.allowed relId && !t.result.contains relId then
        let edge := if request.upstream then (relId, id) else (id, relId)
        let t :=
          { t with
            result := t.result ++ [relId]
            edges := if t.edges.contains edge then t.edges else t.edges ++ [edge] }
        if request.maxResults ≤ t.result.length then { t with truncated := true } else t
      else t

/-- The related ids in the order of the loop. -/
def related (request : Request) (id : String) : List String :=
  ((request.map.lookup id).getD []).insertionSort (· ≤ ·)

/-- The loop over the queue; each turn takes a unit of the fuel. -/
def traverse (request : Request) : ℕ → Traversal → Option Traversal
  | 0, _ => none
  | fuel + 1, t =>
      match t.queue with
      | [] => some t
      | (id, depthUsed) :: rest =>
          let t := { t with queue := rest }
          if t.truncated then some t
          else
            let t := { t with depthReached := max t.depthReached depthUsed }
            traverse request fuel
              ((related request id).foldl (visitRelated request id depthUsed) t)

def start (rootId : String) : Traversal where
  visitedDepth := Function.update (fun _ => none) rootId (some 0)
  result := []
  edges := []
  queue := [(rootId, 0)]
  depthReached := 0
  truncated := false

/-- The map of the direction, and whether it leads upstream. -/
def lineageMap (index : LineageIndex) (direction : String) :
    Result (List (String × List String) × Bool) :=
  if direction = "upstream" then .ok (index.parentMap, true)
  else if direction = "downstream" then .ok (index.childMap, false)
  else .error (.invalidParams "direction must be 'upstream' or 'downstream'")

def requestOf (index : LineageIndex) (config : LineageConfig) (params : GetLineageParams) :
    Result Request := do
  let (map, upstream) ← lineageMap index params.direction
  let configuredMax := config.lineageMaxDepth
  let maxDepth := min (params.depth.getD configuredMax) configuredMax
  if maxDepth = 0 then .error (.invalidParams "depth must be greater than 0")
  else
    .ok
      { map := map
        upstream := upstream
        allowed := fun id =>
          lineageTypeAllowed (index.resourceTypeById.lookup id) params.resourceTypes
        maxDepth := maxDepth
        maxResults := max config.lineageMaxResults 1 }

/-- The ids and edges of the response; `none` where the fuel runs out. -/
def getLineage (fuel : ℕ) (index : LineageIndex) (config : LineageConfig) (rootId : String)
    (params : GetLineageParams) : Result (Option Traversal) := do
  let request ← requestOf index config params
  return (traverse request fuel (start rootId)).map fun t =>
    if request.maxResults < t.result.length then
      { t with result := t.result.take request.maxResults, truncated := true }
    else t

section Visit
variable {request : Request} {rootId id : String} {depthUsed : ℕ} {t : Traversal}

def weight (request : Request) (id : String) : ℕ := (request.allowed id).toNat

/-- The labels and the queue of the traversal. -/
def Traversal.search (t : Traversal) : LabelCorrecting.State String := ⟨t.visitedDepth, t.queue⟩

theorem shouldVisit_eq (v : String) (cost : ℕ) :
    shouldVisit (t.visitedDepth v) cost = LabelCorrecting.improves t.search v cost := rfl

/-- The first way to an allowed id puts it into the result. -/
def Takes (request : Request) (t : Traversal) (v : String) : Prop :=
  request.allowed v = true ∧ v ∉ t.result

theorem visitRelated_put (ht : t.truncated = false) {v : String}
    (hle : depthUsed + weight request v ≤ request.maxDepth)
    (hnot : ¬ LabelCorrecting.Labelled t.search v (depthUsed + weight request v)) :
    (visitRelated request id depthUsed t v).search =
        t.search.put v (depthUsed + weight request v) ∧
      ((Takes request t v ∧ (visitRelated request id depthUsed t v).result = t.result ++ [v] ∧
          ((visitRelated request id depthUsed t v).truncated = true ↔
            request.maxResults ≤ t.result.length + 1)) ∨
        (¬ Takes request t v ∧ (visitRelated request id depthUsed t v).result = t.result ∧
          (visitRelated request id depthUsed t v).truncated = false)) := by
  have himproves := LabelCorrecting.improves_iff.mpr hnot
  rw [← shouldVisit_eq] at himproves
  have hbound : ¬ request.maxDepth < depthUsed + (request.allowed v).toNat := Nat.not_lt.mpr hle
  unfold weight at himproves
  unfold visitRelated
  rw [if_neg (by rw [ht]; exact Bool.false_ne_true)]
  dsimp only
  rw [if_neg hbound, himproves, Bool.not_true, if_neg Bool.false_ne_true]
  by_cases htakes : Takes request t v
  · have htest : (request.allowed v && !t.result.contains v) = true := by
      rw [htakes.1, Bool.true_and, Bool.not_eq_true', List.contains_eq_mem]
      exact decide_eq_false htakes.2
    rw [if_pos htest]
    split
    · rename_i hfull
      rw [List.length_append] at hfull
      exact ⟨rfl, Or.inl ⟨htakes, rfl, iff_of_true rfl hfull⟩⟩
    · rename_i hfull
      rw [List.length_append] at hfull
      refine ⟨rfl, Or.inl ⟨htakes, rfl, iff_of_false ?_ hfull⟩⟩
      exact fun h => Bool.false_ne_true (ht.symm.trans h)
  · have htest : ¬ (request.allowed v && !t.result.contains v) = true := by
      intro h
      rw [Bool.and_eq_true, Bool.not_eq_true', List.contains_eq_mem] at h
      exact htakes ⟨h.1, of_decide_eq_false h.2⟩
    rw [if_neg htest]
    exact ⟨rfl, Or.inr ⟨htakes, rfl, ht⟩⟩

theorem visitRelated_kept (ht : t.truncated = false) {v : String}
    (h : depthUsed + weight request v ≤ request.maxDepth →
      LabelCorrecting.Labelled t.search v (depthUsed + weight request v)) :
    visitRelated request id depthUsed t v = t := by
  unfold visitRelated
  rw [if_neg (by rw [ht]; exact Bool.false_ne_true)]
  dsimp only
  split
  · rfl
  · rename_i hbound
    have hlabelled := h (Nat.not_lt.mp hbound)
    have hno : shouldVisit (t.visitedDepth v) (depthUsed + (request.allowed v).toNat) = false := by
      rw [shouldVisit_eq]
      exact Bool.eq_false_iff.mpr (fun himproves =>
        LabelCorrecting.improves_iff.mp himproves hlabelled)
    rw [hno]
    rfl

theorem visitRelated_stopped (ht : t.truncated = true) (v : String) :
    visitRelated request id depthUsed t v = t :=
  if_pos ht

/-- Without a truncation before it, the body is one step of the search. -/
theorem visitRelated_search (ht : t.truncated = false) (v : String) :
    (visitRelated request id depthUsed t v).search =
      LabelCorrecting.relax (weight request) request.maxDepth depthUsed t.search v := by
  cases LabelCorrecting.relax_cases (weight request) request.maxDepth depthUsed t.search v with
  | inl hkept => rw [hkept.1, visitRelated_kept ht hkept.2]
  | inr hput => rw [hput.1, (visitRelated_put ht hput.2.1 hput.2.2).1]

theorem foldl_stopped (ht : t.truncated = true) (todo : List String) :
    todo.foldl (visitRelated request id depthUsed) t = t := by
  induction todo with
  | nil => rfl
  | cons v todo ih => rw [List.foldl_cons, visitRelated_stopped ht v, ih]

theorem foldl_search (todo : List String)
    (h : (todo.foldl (visitRelated request id depthUsed) t).truncated = false) :
    (todo.foldl (visitRelated request id depthUsed) t).search =
      todo.foldl (LabelCorrecting.relax (weight request) request.maxDepth depthUsed) t.search := by
  induction todo generalizing t with
  | nil => rfl
  | cons v todo ih =>
      have ht : t.truncated = false := by
        by_contra htrue
        rw [foldl_stopped ((Bool.not_eq_false _).mp htrue)] at h
        exact htrue h
      rw [List.foldl_cons] at h ⊢
      rw [ih h, visitRelated_search ht, List.foldl_cons]

end Visit

/-! ## What is found -/

section Found
variable {request : Request} {rootId id : String} {depthUsed : ℕ} {t : Traversal}

/-- The result holds the labelled ids of an allowed type, up to the maximum. -/
structure Collected (request : Request) (rootId : String) (t : Traversal) : Prop where
  nodup : t.result.Nodup
  mem : ∀ v, v ∈ t.result ↔
    v ≠ rootId ∧ request.allowed v = true ∧ ∃ cost, LabelCorrecting.Labelled t.search v cost
  count : t.result.length ≤ request.maxResults
  full : t.truncated = true ↔ t.result.length = request.maxResults

structure Good (request : Request) (rootId : String) (t : Traversal) : Prop
    extends Collected request rootId t where
  sound : LabelCorrecting.Sound (related request) (weight request) request.maxDepth rootId t.search

theorem labelled_put {s : LabelCorrecting.State String} {u v : String} {cost : ℕ} :
    (∃ c, LabelCorrecting.Labelled (s.put v cost) u c) ↔
      u = v ∨ ∃ c, LabelCorrecting.Labelled s u c := by
  by_cases huv : u = v
  · rw [huv]
    exact iff_of_true ⟨cost, LabelCorrecting.put_labelled s v cost⟩ (Or.inl rfl)
  · unfold LabelCorrecting.Labelled
    rw [LabelCorrecting.put_label_ne s cost huv]
    exact (or_iff_right huv).symm

section Put
variable {t' : Traversal} {v : String} {cost : ℕ} (h : Collected request rootId t)
  (hlt : t.result.length < request.maxResults) (hsearch : t'.search = t.search.put v cost)
include h hlt hsearch

/-- A labelled id that is taken. -/
theorem Collected.take (hroot : v ≠ rootId) (htakes : Takes request t v)
    (hresult : t'.result = t.result ++ [v])
    (htruncated : t'.truncated = true ↔ request.maxResults ≤ t.result.length + 1) :
    Collected request rootId t' := by
  obtain ⟨hallowed, hnew⟩ := htakes
  constructor
  · rw [hresult]
    apply List.nodup_append.mpr
    refine ⟨h.nodup, List.nodup_singleton v, ?_⟩
    intro a ha b hb hab
    rw [List.mem_singleton.mp hb] at hab
    exact hnew (hab ▸ ha)
  · intro u
    rw [hresult, hsearch, labelled_put, List.mem_append, List.mem_singleton, h.mem]
    constructor
    · intro hu
      cases hu with
      | inl hold => exact ⟨hold.1, hold.2.1, Or.inr hold.2.2⟩
      | inr hv => exact ⟨hv ▸ hroot, hv ▸ hallowed, Or.inl hv⟩
    · intro hu
      cases hu.2.2 with
      | inl hv => exact Or.inr hv
      | inr hold => exact Or.inl ⟨hu.1, hu.2.1, hold⟩
  · rw [hresult, List.length_append]
    exact hlt
  · rw [htruncated, hresult, List.length_append, List.length_singleton]
    omega

/-- A labelled id that is not taken: of another type, or in the result already. -/
theorem Collected.skip (hskips : ¬ Takes request t v) (hresult : t'.result = t.result)
    (htruncated : t'.truncated = false) : Collected request rootId t' := by
  constructor
  · rw [hresult]
    exact h.nodup
  · intro u
    rw [hresult, hsearch, labelled_put, h.mem]
    constructor
    · intro hu
      exact ⟨hu.1, hu.2.1, Or.inr hu.2.2⟩
    · intro hu
      refine ⟨hu.1, hu.2.1, ?_⟩
      cases hu.2.2 with
      | inr hold => exact hold
      | inl hv =>
          have hmem : u ∈ t.result := by
            by_contra hnew
            rw [hv] at hnew hu
            exact hskips ⟨hu.2.1, hnew⟩
          exact ((h.mem u).mp hmem).2.2
  · rw [hresult]
    exact h.count
  · rw [htruncated, hresult]
    exact iff_of_false Bool.false_ne_true hlt.ne

end Put

theorem visitRelated_collected {v : String} (h : Good request rootId t) :
    Collected request rootId (visitRelated request id depthUsed t v) := by
  cases ht : t.truncated with
  | true =>
      rw [visitRelated_stopped ht]
      exact h.toCollected
  | false =>
      cases LabelCorrecting.relax_cases (weight request) request.maxDepth depthUsed t.search v with
      | inl hkept =>
          rw [visitRelated_kept ht hkept.2]
          exact h.toCollected
      | inr hput =>
          obtain ⟨-, hle, hnot⟩ := hput
          have hroot : v ≠ rootId := by
            intro hv
            rw [hv] at hnot
            exact hnot (h.sound.root.mono (Nat.zero_le _))
          have hlt : t.result.length < request.maxResults := by
            apply lt_of_le_of_ne h.count
            intro hfull
            rw [h.full.mpr hfull] at ht
            contradiction
          obtain ⟨hsearch, htaken⟩ : (visitRelated request id depthUsed t v).search = _ ∧ _ :=
            visitRelated_put ht hle hnot
          cases htaken with
          | inl htakes =>
              exact h.toCollected.take hlt hsearch hroot htakes.1 htakes.2.1 htakes.2.2
          | inr hskips => exact h.toCollected.skip hlt hsearch hskips.1 hskips.2.1 hskips.2.2

theorem visitRelated_good {v : String} (h : Good request rootId t)
    (hway : LabelCorrecting.Way (related request) (weight request) rootId id depthUsed)
    (hv : v ∈ related request id) :
    Good request rootId (visitRelated request id depthUsed t v) := by
  refine ⟨visitRelated_collected h, ?_⟩
  cases ht : t.truncated with
  | true =>
      rw [visitRelated_stopped ht]
      exact h.sound
  | false =>
      rw [visitRelated_search ht]
      exact h.sound.relax hway hv

theorem foldl_good (todo : List String) (h : Good request rootId t)
    (hway : LabelCorrecting.Way (related request) (weight request) rootId id depthUsed)
    (htodo : ∀ v ∈ todo, v ∈ related request id) :
    Good request rootId (todo.foldl (visitRelated request id depthUsed) t) := by
  induction todo generalizing t with
  | nil => exact h
  | cons v todo ih =>
      exact ih (visitRelated_good h hway (htodo v List.mem_cons_self))
        (fun w hw => htodo w (List.mem_cons_of_mem v hw))

theorem start_good (request : Request) (rootId : String) (hmax : 1 ≤ request.maxResults) :
    Good request rootId (start rootId) := by
  have hinv := LabelCorrecting.init_inv (related request) (weight request) request.maxDepth rootId
  refine ⟨⟨List.nodup_nil, ?_, Nat.zero_le _, ?_⟩, hinv.toSound⟩
  · intro v
    apply iff_of_false List.not_mem_nil
    intro hv
    obtain ⟨cost, l, hl, -⟩ := hv.2.2
    have hnone : (start rootId).search.label v = none :=
      LabelCorrecting.put_label_ne ⟨fun _ => none, []⟩ 0 hv.1
    rw [hnone] at hl
    contradiction
  · have hempty : (start rootId).result.length = 0 := rfl
    rw [hempty]
    exact iff_of_false Bool.false_ne_true (by omega)

end Found

/-! ## The loop over the queue -/

section Loop
variable {request : Request} {rootId : String} {t t' : Traversal}

theorem traverse_good (fuel : ℕ) (h : Good request rootId t)
    (hrun : traverse request fuel t = some t') : Good request rootId t' := by
  induction fuel generalizing t with
  | zero => contradiction
  | succ fuel ih =>
      unfold traverse at hrun
      split at hrun
      · rw [← Option.some.inj hrun]
        exact h
      · rename_i id depthUsed rest hqueue
        obtain ⟨hway, hpopped⟩ := h.sound.pop hqueue
        dsimp only at hrun
        split at hrun
        · rw [← Option.some.inj hrun]
          exact ⟨⟨h.nodup, h.mem, h.count, h.full⟩, hpopped⟩
        · apply ih _ hrun
          exact foldl_good _ ⟨⟨h.nodup, h.mem, h.count, h.full⟩, hpopped⟩ hway (fun _ hv => hv)

theorem traverse_stopped (fuel : ℕ) (ht : t.truncated = true)
    (hrun : traverse request fuel t = some t') : t'.truncated = true := by
  cases fuel with
  | zero => contradiction
  | succ fuel =>
      unfold traverse at hrun
      split at hrun
      · rw [← Option.some.inj hrun]
        exact ht
      · dsimp only at hrun
        rw [if_pos ht] at hrun
        rw [← Option.some.inj hrun]
        exact ht

/-- A traversal that is not cut short empties the queue. -/
theorem traverse_inv (fuel : ℕ) (ht : t.truncated = false)
    (h : LabelCorrecting.Inv (related request) (weight request) request.maxDepth rootId t.search)
    (hrun : traverse request fuel t = some t') (hend : t'.truncated = false) :
    LabelCorrecting.Inv (related request) (weight request) request.maxDepth rootId t'.search ∧
      t'.queue = [] := by
  induction fuel generalizing t with
  | zero => contradiction
  | succ fuel ih =>
      unfold traverse at hrun
      split at hrun
      · rename_i hqueue
        rw [← Option.some.inj hrun]
        exact ⟨h, hqueue⟩
      · rename_i id depthUsed rest hqueue
        dsimp only at hrun
        rw [if_neg (by rw [ht]; exact Bool.false_ne_true)] at hrun
        have hscan := LabelCorrecting.scan_inv h hqueue
        cases hmid : ((related request id).foldl (visitRelated request id depthUsed)
            { t with queue := rest, depthReached := max t.depthReached depthUsed }).truncated with
        | true =>
            rw [traverse_stopped fuel hmid hrun] at hend
            contradiction
        | false =>
            apply ih hmid _ hrun
            rw [foldl_search _ hmid]
            exact hscan

/-- The ids that the traversal can meet. -/
def nodes (request : Request) (rootId : String) : Finset String :=
  insert rootId (request.map.flatMap Prod.snd).toFinset

theorem mem_related {u v : String} :
    v ∈ related request u ↔ ∃ ids, request.map.lookup u = some ids ∧ v ∈ ids := by
  unfold related
  rw [List.mem_insertionSort]
  cases hlookup : request.map.lookup u with
  | none => simp
  | some ids => simp

theorem related_nodes {u v : String} (h : v ∈ related request u) : v ∈ nodes request rootId := by
  obtain ⟨ids, hlookup, hv⟩ := mem_related.mp h
  apply Finset.mem_insert_of_mem
  rw [List.mem_toFinset, List.mem_flatMap]
  obtain ⟨l₁, l₂, hmap, -⟩ := List.lookup_eq_some_iff.mp hlookup
  refine ⟨(u, ids), ?_, hv⟩
  rw [hmap]
  exact List.mem_append_right _ List.mem_cons_self

theorem visitRelated_potential {all : Finset String} {id v : String} {depthUsed : ℕ}
    (hv : v ∈ all) (t : Traversal) :
    LabelCorrecting.potential request.maxDepth all (visitRelated request id depthUsed t v).search ≤
      LabelCorrecting.potential request.maxDepth all t.search := by
  cases ht : t.truncated with
  | true => rw [visitRelated_stopped ht]
  | false =>
      rw [visitRelated_search ht]
      exact LabelCorrecting.relax_potential hv depthUsed t.search

theorem foldl_potential {all : Finset String} {id : String} {depthUsed : ℕ} (todo : List String)
    (htodo : ∀ v ∈ todo, v ∈ all) (t : Traversal) :
    LabelCorrecting.potential request.maxDepth all
        (todo.foldl (visitRelated request id depthUsed) t).search ≤
      LabelCorrecting.potential request.maxDepth all t.search := by
  induction todo generalizing t with
  | nil => exact le_refl _
  | cons v todo ih =>
      have hrest := ih (fun w hw => htodo w (List.mem_cons_of_mem v hw))
        (visitRelated request id depthUsed t v)
      exact hrest.trans (visitRelated_potential (htodo v List.mem_cons_self) t)

/-- Fuel above the potential is enough. -/
theorem traverse_total (rootId : String) (fuel : ℕ) (t : Traversal)
    (hfuel : LabelCorrecting.potential request.maxDepth (nodes request rootId) t.search < fuel) :
    ∃ t', traverse request fuel t = some t' := by
  induction fuel generalizing t with
  | zero => exact absurd hfuel (Nat.not_lt_zero _)
  | succ fuel ih =>
      unfold traverse
      split
      · exact ⟨t, rfl⟩
      · rename_i id depthUsed rest hqueue
        dsimp only
        split
        · exact ⟨_, rfl⟩
        · apply ih
          have hall : ∀ v ∈ related request id, v ∈ nodes request rootId :=
            fun v hv => related_nodes hv
          apply lt_of_le_of_lt (foldl_potential _ hall _)
          have hpop : LabelCorrecting.potential request.maxDepth (nodes request rootId)
              (Traversal.search
                { t with queue := rest, depthReached := max t.depthReached depthUsed }) + 1 =
              LabelCorrecting.potential request.maxDepth (nodes request rootId) t.search := by
            unfold LabelCorrecting.potential Traversal.search
            rw [hqueue, List.length_cons]
            rfl
          omega

theorem traverse_mono {fuel fuel' : ℕ} (hle : fuel ≤ fuel')
    (hrun : traverse request fuel t = some t') : traverse request fuel' t = some t' := by
  induction fuel generalizing fuel' t with
  | zero => contradiction
  | succ fuel ih =>
      obtain ⟨more, rfl⟩ := Nat.exists_eq_add_of_le hle
      have hsucc : fuel + 1 + more = (fuel + more) + 1 := by omega
      rw [hsucc]
      unfold traverse at hrun ⊢
      split at hrun
      · exact hrun
      · dsimp only at hrun ⊢
        split at hrun
        · rename_i hstopped
          rw [if_pos hstopped]
          exact hrun
        · rename_i hgoing
          rw [if_neg hgoing]
          exact ih (Nat.le_add_right fuel more) hrun

end Loop

/-! ## The ids within the depth -/

section Reached
variable {request : Request} {rootId : String} {t : Traversal}

/-- The nodes on a path from the root, without the root it starts from. -/
inductive Path (map : List (String × List String)) (rootId : String) :
    List String → String → Prop
  | nil : Path map rootId [] rootId
  | snoc {path : List String} {u v : String} {ids : List String} :
      Path map rootId path u → map.lookup u = some ids → v ∈ ids →
        Path map rootId (path ++ [v]) v

/-- How many nodes of an allowed type a path has; the root is not counted. -/
def allowedCount (request : Request) (rootId : String) (path : List String) : ℕ :=
  path.countP fun v => v != rootId && request.allowed v

def Reached (request : Request) (rootId : String) : Set String :=
  {v | v ≠ rootId ∧ request.allowed v = true ∧
    ∃ path, Path request.map rootId path v ∧ allowedCount request rootId path ≤ request.maxDepth}

theorem allowedCount_snoc (path : List String) (v : String) :
    allowedCount request rootId (path ++ [v]) =
      allowedCount request rootId path + if v = rootId then 0 else weight request v := by
  unfold allowedCount weight
  rw [List.countP_append, List.countP_singleton]
  by_cases hv : v = rootId
  · simp [hv]
  · cases hallowed : request.allowed v with
    | false => simp [hv]
    | true => simp [hv]

theorem path_of_way {v : String} {cost : ℕ}
    (h : LabelCorrecting.Way (related request) (weight request) rootId v cost) :
    ∃ path, Path request.map rootId path v ∧ allowedCount request rootId path ≤ cost := by
  induction h with
  | root => exact ⟨[], Path.nil, le_refl 0⟩
  | @step u v cost hu hv ih =>
      obtain ⟨path, hpath, hcount⟩ := ih
      obtain ⟨ids, hlookup, hmem⟩ := mem_related.mp hv
      refine ⟨path ++ [v], Path.snoc hpath hlookup hmem, ?_⟩
      rw [allowedCount_snoc]
      split <;> omega

/-- A path through the root again has a shorter one behind it. -/
theorem way_of_path {path : List String} {v : String} (h : Path request.map rootId path v) :
    ∃ cost, cost ≤ allowedCount request rootId path ∧
      LabelCorrecting.Way (related request) (weight request) rootId v cost := by
  induction h with
  | nil => exact ⟨0, le_refl 0, LabelCorrecting.Way.root⟩
  | @snoc path u v ids hu hlookup hmem ih =>
      obtain ⟨cost, hcost, hway⟩ := ih
      rw [allowedCount_snoc]
      by_cases hv : v = rootId
      · rw [hv]
        exact ⟨0, Nat.zero_le _, LabelCorrecting.Way.root⟩
      · rw [if_neg hv]
        refine ⟨cost + weight request v, by omega, ?_⟩
        exact LabelCorrecting.Way.step hway (mem_related.mpr ⟨ids, hlookup, hmem⟩)

theorem reached_iff {v : String} :
    v ∈ Reached request rootId ↔ v ≠ rootId ∧ request.allowed v = true ∧
      ∃ cost, cost ≤ request.maxDepth ∧
        LabelCorrecting.Way (related request) (weight request) rootId v cost := by
  unfold Reached
  rw [Set.mem_ofPred_eq]
  constructor
  · intro h
    obtain ⟨hroot, hallowed, path, hpath, hcount⟩ := h
    obtain ⟨cost, hcost, hway⟩ := way_of_path hpath
    exact ⟨hroot, hallowed, cost, hcost.trans hcount, hway⟩
  · intro h
    obtain ⟨hroot, hallowed, cost, hcost, hway⟩ := h
    obtain ⟨path, hpath, hcount⟩ := path_of_way hway
    exact ⟨hroot, hallowed, path, hpath, hcount.trans hcost⟩

theorem reached_finite (request : Request) (rootId : String) :
    (Reached request rootId).Finite := by
  apply (nodes request rootId).finite_toSet.subset
  intro v hv
  obtain ⟨hroot, -, cost, -, hway⟩ := reached_iff.mp hv
  cases hway with
  | root => exact absurd rfl hroot
  | step _ hv => exact related_nodes hv

/-- Whatever is in the result can be reached. -/
theorem Good.reached (h : Good request rootId t) {v : String} (hv : v ∈ t.result) :
    v ∈ Reached request rootId := by
  obtain ⟨hroot, hallowed, cost, l, hl, -⟩ := (h.mem v).mp hv
  obtain ⟨hway, hle⟩ := h.sound.label v l hl
  exact reached_iff.mpr ⟨hroot, hallowed, l, hle, hway⟩

/-- Without a truncation everything that can be reached is in the result. -/
theorem complete_result (h : Good request rootId t)
    (hinv : LabelCorrecting.Inv (related request) (weight request) request.maxDepth rootId
      t.search) (hqueue : t.queue = []) (v : String) :
    v ∈ t.result ↔ v ∈ Reached request rootId := by
  constructor
  · exact h.reached
  · intro hv
    obtain ⟨hroot, hallowed, cost, hcost, hway⟩ := reached_iff.mp hv
    have hlabelled := hinv.complete hqueue hway hcost
    exact (h.mem v).mpr ⟨hroot, hallowed, cost, hlabelled⟩

/-- What a traversal from the start leaves. -/
theorem traverse_spec (request : Request) (rootId : String) (hmax : 1 ≤ request.maxResults) :
    ∃ fuel t, (∀ fuel' ≥ fuel, traverse request fuel' (start rootId) = some t) ∧
      Good request rootId t ∧
      (t.truncated = false → ∀ v, v ∈ t.result ↔ v ∈ Reached request rootId) := by
  have hstart := start_good request rootId hmax
  obtain ⟨t, ht⟩ := traverse_total rootId _ (start rootId) (Nat.lt_succ_self _)
  have hgood := traverse_good _ hstart ht
  refine ⟨_, t, fun fuel' hle => traverse_mono hle ht, hgood, ?_⟩
  intro htruncated
  have hinit := LabelCorrecting.init_inv (related request) (weight request) request.maxDepth rootId
  obtain ⟨hinv, hqueue⟩ := traverse_inv _ rfl hinit ht htruncated
  exact complete_result hgood hinv hqueue

theorem length_eq_ncard {ids : List String} {s : Set String} (hnodup : ids.Nodup)
    (h : ∀ v, v ∈ ids ↔ v ∈ s) : ids.length = s.ncard := by
  have hset : s = (ids.toFinset : Set String) := by
    ext v
    rw [Finset.mem_coe, List.mem_toFinset, h]
  rw [hset, Set.ncard_coe_finset, List.toFinset_card_of_nodup hnodup]

theorem requestOf_max {index : LineageIndex} {config : LineageConfig} {params : GetLineageParams}
    (h : requestOf index config params = .ok request) : 1 ≤ request.maxResults := by
  unfold requestOf at h
  obtain ⟨⟨map, upstream⟩, -, h⟩ := bind_eq_ok.mp h
  dsimp only at h
  split at h
  · contradiction
  · cases h
    exact le_max_right _ _

theorem getLineage_eq {index : LineageIndex} {config : LineageConfig} {params : GetLineageParams}
    {fuel : ℕ} (h : requestOf index config params = .ok request)
    (ht : traverse request fuel (start rootId) = some t) (hgood : Good request rootId t) :
    getLineage fuel index config rootId params = .ok (some t) := by
  unfold getLineage
  rw [h]
  change Except.ok ((traverse request fuel (start rootId)).map _) = _
  rw [ht, Option.map_some, if_neg (Nat.not_lt.mpr hgood.count)]

/-- An answer is a traversal from the start. -/
theorem getLineage_good {index : LineageIndex} {config : LineageConfig}
    {params : GetLineageParams} {fuel : ℕ}
    (h : getLineage fuel index config rootId params = .ok (some t)) :
    ∃ request, requestOf index config params = .ok request ∧ Good request rootId t ∧
      (t.truncated = false → ∀ v, v ∈ t.result ↔ v ∈ Reached request rootId) := by
  unfold getLineage at h
  obtain ⟨request, hrequest, hrun⟩ := bind_eq_ok.mp h
  have hfound : (traverse request fuel (start rootId)).map _ = some t := Except.ok.inj hrun
  obtain ⟨t', ht', hcut⟩ := Option.map_eq_some_iff.mp hfound
  have hgood := traverse_good fuel (start_good request rootId (requestOf_max hrequest)) ht'
  rw [if_neg (Nat.not_lt.mpr hgood.count)] at hcut
  subst hcut
  refine ⟨request, hrequest, hgood, ?_⟩
  intro htruncated
  have hinit := LabelCorrecting.init_inv (related request) (weight request) request.maxDepth rootId
  obtain ⟨hinv, hqueue⟩ := traverse_inv fuel rfl hinit ht' htruncated
  exact complete_result hgood hinv hqueue

end Reached

/-- Two cycles and a self-loop; `"test.t"` costs nothing when only models are wanted. -/
def cyclicIndex : LineageIndex where
  parentMap := []
  childMap := [("model.a", ["model.b", "test.t"]), ("test.t", ["model.c", "test.t"]),
    ("model.b", ["model.c"]), ("model.c", ["model.a", "model.d"])]
  resourceTypeById := [("model.a", "model"), ("model.b", "model"), ("model.c", "model"),
    ("model.d", "model"), ("test.t", "test")]

def modelsBelow : GetLineageParams where
  direction := "downstream"
  depth := some 2
  resourceTypes := ["Model"]

/-- The other nodes that a path of at most so many edges reaches. -/
def Nearby (map : List (String × List String)) (maxDepth : ℕ) (rootId : String) : Set String :=
  {v | v ≠ rootId ∧ ∃ path, Path map rootId path v ∧ path.length ≤ maxDepth}

section Nearby
variable {request : Request} {rootId : String}

theorem path_length_of_way (hallowed : ∀ v, request.allowed v = true) {v : String} {cost : ℕ}
    (h : LabelCorrecting.Way (related request) (weight request) rootId v cost) :
    ∃ path, Path request.map rootId path v ∧ path.length = cost := by
  induction h with
  | root => exact ⟨[], Path.nil, rfl⟩
  | @step u v cost hu hv ih =>
      obtain ⟨path, hpath, hlength⟩ := ih
      obtain ⟨ids, hlookup, hmem⟩ := mem_related.mp hv
      refine ⟨path ++ [v], Path.snoc hpath hlookup hmem, ?_⟩
      unfold weight
      rw [List.length_append, List.length_singleton, hlength, hallowed]
      rfl

/-- Without a filter everything is allowed. -/
theorem requestOf_unfiltered {index : LineageIndex} {config : LineageConfig}
    {direction : String} {depth : Option ℕ}
    (h : requestOf index config ⟨direction, depth, []⟩ = .ok request) :
    ∃ map upstream, lineageMap index direction = .ok (map, upstream) ∧ request.map = map ∧
      (∀ v, request.allowed v = true) ∧
      request.maxDepth = min (depth.getD config.lineageMaxDepth) config.lineageMaxDepth ∧
      request.maxResults = max config.lineageMaxResults 1 := by
  unfold requestOf at h
  obtain ⟨⟨map, upstream⟩, hmap, h⟩ := bind_eq_ok.mp h
  dsimp only at h
  split at h
  · contradiction
  · cases h
    exact ⟨map, upstream, hmap, rfl, fun _ => rfl, rfl, rfl⟩

/-- Where everything is allowed each node costs one level. -/
theorem reached_eq_nearby (hallowed : ∀ v, request.allowed v = true) :
    Reached request rootId = Nearby request.map request.maxDepth rootId := by
  ext v
  constructor
  · intro h
    obtain ⟨hroot, -, cost, hcost, hway⟩ := reached_iff.mp h
    obtain ⟨path, hpath, hlength⟩ := path_length_of_way hallowed hway
    exact ⟨hroot, path, hpath, hlength.le.trans hcost⟩
  · intro h
    obtain ⟨hroot, path, hpath, hlength⟩ := h
    exact ⟨hroot, hallowed v, path, hpath, List.countP_le_length.trans hlength⟩

end Nearby

/-! ## The truncation flag -/

section Truncation
variable {request : Request} {rootId : String} {t : Traversal}

/-- The result that a maximum out of reach leaves. -/
def UnlimitedResult (request : Request) (rootId : String) (ids : List String) : Prop :=
  ∃ limit fuel t, 1 ≤ limit ∧
    traverse { request with maxResults := limit } fuel (start rootId) = some t ∧
    t.truncated = false ∧ t.result = ids

theorem unlimited_length {ids : List String} (h : UnlimitedResult request rootId ids) :
    ids.length = (Reached request rootId).ncard := by
  obtain ⟨limit, fuel, t, hlimit, hrun, htruncated, rfl⟩ := h
  have hstart := start_good { request with maxResults := limit } rootId hlimit
  have hgood := traverse_good fuel hstart hrun
  have hinit := LabelCorrecting.init_inv (related { request with maxResults := limit })
    (weight { request with maxResults := limit }) request.maxDepth rootId
  obtain ⟨hinv, hqueue⟩ := traverse_inv fuel rfl hinit hrun htruncated
  have hcomplete : ∀ v, v ∈ t.result ↔ v ∈ Reached { request with maxResults := limit } rootId :=
    complete_result hgood hinv hqueue
  exact length_eq_ncard hgood.nodup hcomplete

theorem Good.length_le (h : Good request rootId t) :
    t.result.length ≤ (Reached request rootId).ncard := by
  have hsub : (t.result.toFinset : Set String) ⊆ Reached request rootId := by
    intro v hv
    exact h.reached (List.mem_toFinset.mp hv)
  have hle := Set.ncard_le_ncard hsub (reached_finite request rootId)
  rwa [Set.ncard_coe_finset, List.toFinset_card_of_nodup h.nodup] at hle

theorem exists_unlimited (request : Request) (rootId : String) :
    ∃ ids, UnlimitedResult request rootId ids := by
  have hlimit : 1 ≤ (Reached request rootId).ncard + 1 := Nat.le_add_left 1 _
  obtain ⟨fuel, t, hrun, hgood, -⟩ := traverse_spec
    { request with maxResults := (Reached request rootId).ncard + 1 } rootId hlimit
  refine ⟨t.result, _, fuel, t, hlimit, hrun fuel (le_refl fuel), ?_, rfl⟩
  have hle : t.result.length ≤ (Reached request rootId).ncard := hgood.length_le
  cases htruncated : t.truncated with
  | false => rfl
  | true =>
      have hfull : t.result.length = (Reached request rootId).ncard + 1 :=
        hgood.full.mp htruncated
      omega

/-- A root with one child and a maximum of one. -/
def onlyChild : Request where
  map := [("model.a", ["model.b"])]
  upstream := false
  allowed := fun _ => true
  maxDepth := 1
  maxResults := 1

end Truncation

end DbtNova.Lineage
