import DbtNova.BreadthFirst
import DbtNova.ColumnMatching
import DbtNova.StableSort
import Mathlib.Data.String.Basic

/-!
# Column lineage

`get_column_lineage` of `tools/column_lineage.rs`. The entities are searched breadth first
from the start entity, and each match of a column in an entity that is found gives a row.
The rows are those of the steps of the search, in their order, up to the first limit.
-/
namespace DbtNova.ColumnLineage
open Text JsonValue ColumnMatching

inductive LineageError
  | entityNotFound (query : String)
  | invalidParams (message : String)
  deriving DecidableEq

structure Entity where
  columnNames : List String
  payload : JsonValue

/-- What `get_column_lineage` reads of a manifest. -/
structure ManifestSearch (K : Type*) where
  out : Surroundings
  config : ColumnLineageConfig K
  parentMap : List (String × List String)
  childMap : List (String × List String)
  entities : List (String × Entity)
  columnLineageAliases : List (String × AliasMap)

/-- Parameters whose entity has been resolved. -/
structure GetColumnLineageParams where
  startId : String
  columnName : String
  direction : String
  depth : Option ℕ
  confidence : Option String

structure LineageRow (K : Type*) where
  uniqueId : String
  name : Option JsonValue
  resourceType : Option JsonValue
  column : String
  confidence : String
  matchReason : String
  score : K
  explanation : MatchExplanation K
  depth : ℕ
  path : List String
  sourceEntity : String
  sourceColumn : String

structure QueueEntry where
  id : String
  column : String
  depth : ℕ
  path : List String

structure Traversal (K : Type*) where
  results : List (LineageRow K)
  visitedEntities : List String
  queue : List QueueEntry
  truncated : Bool

structure Request where
  startId : String
  startColumn : String
  downstream : Bool
  map : List (String × List String)
  maxDepth : ℕ
  maxResults : ℕ
  maxCandidates : ℕ
  requestedRank : ℕ
  deriving DecidableEq

def confidenceRank (conf defaultConf : String) : ℕ :=
  let conf := if conf.isEmpty then defaultConf else conf
  if conf = "high" then 0 else if conf = "low" then 2 else 1

section Model
variable {K : Type*} [Field K] [LinearOrder K]

def ManifestSearch.getEntity (search : ManifestSearch K) (id : String) : Option Entity :=
  search.entities.lookup id

def getEntityColumns (entity : Entity) : List String := entity.columnNames.insertionSort (· ≤ ·)

/-- Whose SQL is read where `current` leads to `related`. -/
def sqlEntityId (request : Request) (current related : String) : String :=
  if request.downstream then related else current

/-- The orders of all hash maps of a run. Every call that reads the aliases stored for an
entity iterates the same map. -/
structure HashOrder (search : ManifestSearch K) (request : Request) where
  call : String → String → IterationOrder K
  stored : ∀ u v u' v' aliases,
    search.columnLineageAliases.lookup (sqlEntityId request u v) = some aliases →
    sqlEntityId request u v = sqlEntityId request u' v' →
    (call u v).aliases aliases = (call u' v').aliases aliases

/-- Every map is iterated in the order of its insertions. -/
def insertionOrder (search : ManifestSearch K) (request : Request) :
    HashOrder search request where
  call := fun _ _ => ⟨AliasMap.entries, fun _ => List.Perm.refl _, id, fun _ => List.Perm.refl _⟩
  stored := fun _ _ _ _ _ _ _ => rfl

section Traverse
variable (search : ManifestSearch K) (request : Request) (order : HashOrder search request)

def matchInput (currentId column relatedId : String) (current related : Entity) : MatchInput where
  sourceEntity := current.payload
  sourceColumn := column
  targetEntity := related.payload
  targetColumns := getEntityColumns related
  sqlEntity := if request.downstream then related.payload else current.payload
  sqlAliases := search.columnLineageAliases.lookup (sqlEntityId request currentId relatedId)

def matchesOf (currentId column relatedId : String) (current related : Entity) :
    List (ColumnMatch K) :=
  matchColumn search.out search.config
    (matchInput search request currentId column relatedId current related)
    (order.call currentId relatedId)

/-- Whether the confidence is high enough. -/
def accepts (m : ColumnMatch K) : Bool :=
  confidenceRank m.confidence search.config.defaultConfidence ≤ request.requestedRank

def rowOf (entry : QueueEntry) (relatedId : String) (related : Entity) (m : ColumnMatch K) :
    LineageRow K where
  uniqueId := relatedId
  name := related.payload.get "name"
  resourceType := related.payload.get "resource_type"
  column := m.columnName
  confidence := m.confidence
  matchReason := m.matchReason
  score := m.score
  explanation := m.explanation
  depth := entry.depth + 1
  path := entry.path ++ [entry.id]
  sourceEntity := entry.id
  sourceColumn := entry.column

def reportMatch (entry : QueueEntry) (relatedId : String) (related : Entity) (t : Traversal K)
    (m : ColumnMatch K) : Traversal K :=
  if t.truncated then t
  else if accepts search request m then
    let t := { t with results := t.results ++ [rowOf entry relatedId related m] }
    if request.maxResults ≤ t.results.length then { t with truncated := true } else t
  else t

/-- The body of the loop over the related entities of the current one. -/
def visitRelated (entry : QueueEntry) (current : Entity) (t : Traversal K) (relatedId : String) :
    Traversal K :=
  if t.truncated then t
  else if relatedId ∈ t.visitedEntities then t
  else
    match search.getEntity relatedId with
    | none => t
    | some related =>
        let t := (matchesOf search request order entry.id entry.column relatedId current
          related).foldl (reportMatch search request entry relatedId related) t
        if request.maxCandidates ≤ t.queue.length then { t with truncated := true }
        else
          { t with
            queue := t.queue ++ [⟨relatedId, entry.column, entry.depth + 1, entry.path⟩]
            visitedEntities := relatedId :: t.visitedEntities }

def related (id : String) : List String :=
  ((request.map.lookup id).getD []).insertionSort (· ≤ ·)

/-- The loop over the queue; each turn takes a unit of the fuel. -/
def traverse : ℕ → Traversal K → Option (Traversal K)
  | 0, _ => none
  | fuel + 1, t =>
      match t.queue with
      | [] => some t
      | entry :: rest =>
          let t := { t with queue := rest }
          if t.truncated then some t
          else if request.maxDepth ≤ entry.depth then traverse fuel t
          else
            match search.getEntity entry.id with
            | none => traverse fuel t
            | some current =>
                traverse fuel
                  ((related request entry.id).foldl (visitRelated search request order entry current)
                    t)

def start : Traversal K where
  results := []
  visitedEntities := [request.startId]
  queue := [⟨request.startId, request.startColumn, 0, []⟩]
  truncated := false

end Traverse

def requestedConfidence (search : ManifestSearch K) (params : GetColumnLineageParams) : String :=
  search.out.toLowercase
    (((params.confidence.map trim).filter (!·.isEmpty)).getD search.config.defaultConfidence)

/-- The start entity must be stored and have the column. -/
def checkStart (search : ManifestSearch K) (params : GetColumnLineageParams) :
    Except LineageError Unit :=
  match search.getEntity params.startId with
  | none => .error (.entityNotFound params.startId)
  | some startEntity =>
      let columnLower := search.out.toLowercase params.columnName
      if (getEntityColumns startEntity).any fun c => search.out.toLowercase c == columnLower then
        .ok ()
      else .error (.entityNotFound (params.startId ++ "." ++ params.columnName))

/-- The map of the direction, and whether it leads downstream. -/
def manifestMap (search : ManifestSearch K) (direction : String) :
    Except LineageError (List (String × List String) × Bool) :=
  if direction = "upstream" then .ok (search.parentMap, false)
  else if direction = "downstream" then .ok (search.childMap, true)
  else .error (.invalidParams "direction must be 'upstream' or 'downstream'")

def requestOf (search : ManifestSearch K) (params : GetColumnLineageParams) :
    Except LineageError Request := do
  checkStart search params
  let (map, downstream) ← manifestMap search params.direction
  let configuredMax := search.config.maxDepth
  let maxDepth := min (params.depth.getD configuredMax) configuredMax
  if maxDepth = 0 then .error (.invalidParams "depth must be greater than 0")
  else
    .ok
      { startId := params.startId
        startColumn := params.columnName
        downstream := downstream
        map := map
        maxDepth := maxDepth
        maxResults := max search.config.maxResults 1
        maxCandidates := max search.config.maxMatchCandidates 1
        requestedRank :=
          confidenceRank (requestedConfidence search params) search.config.defaultConfidence }

def compareRows (a b : LineageRow K) : Ordering :=
  (compare a.depth b.depth).then <| (compare b.score a.score).then <|
    (compare a.uniqueId b.uniqueId).then (compare a.column b.column)

structure LineageAnswer (K : Type*) where
  lineage : List (LineageRow K)
  truncated : Bool

/-- The rows of the response; `none` where the fuel runs out. -/
def columnLineage (fuel : ℕ) (search : ManifestSearch K) (request : Request)
    (order : HashOrder search request) : Option (LineageAnswer K) :=
  (traverse search request order fuel (start request)).map fun t =>
    { lineage := StableSort.sort compareRows t.results
      truncated := t.truncated }

def getColumnLineage (fuel : ℕ) (search : ManifestSearch K) (params : GetColumnLineageParams)
    (order : ∀ request, HashOrder search request) :
    Except LineageError (Option (LineageAnswer K)) :=
  (requestOf search params).map fun request =>
    columnLineage fuel search request (order request)

end Model

/-! ## The search behind the rows -/

section Matches
variable {K : Type*} {search : ManifestSearch K} {request : Request} {entry : QueueEntry}
  {relatedId : String} {relatedEntity : Entity}

theorem foldl_reportMatch_truncated {t : Traversal K} (h : t.truncated = true)
    (todo : List (ColumnMatch K)) :
    todo.foldl (reportMatch search request entry relatedId relatedEntity) t = t := by
  induction todo with
  | nil => rfl
  | cons m todo ih =>
      have hstop : reportMatch search request entry relatedId relatedEntity t m = t := if_pos h
      rw [List.foldl_cons, hstop, ih]

/-- The loop over the matches of one entity. -/
theorem foldl_reportMatch {t : Traversal K} (h : t.truncated = false)
    (hroom : t.results.length < request.maxResults) (todo : List (ColumnMatch K)) :
    todo.foldl (reportMatch search request entry relatedId relatedEntity) t =
      { t with
        results := (t.results ++ (todo.filter (accepts search request)).map
          (rowOf entry relatedId relatedEntity)).take request.maxResults
        truncated := decide (request.maxResults ≤ (t.results ++
          (todo.filter (accepts search request)).map
            (rowOf entry relatedId relatedEntity)).length) } := by
  induction todo generalizing t with
  | nil =>
      rw [List.filter_nil, List.map_nil, List.append_nil, List.take_of_length_le hroom.le,
        decide_eq_false (Nat.not_le.mpr hroom), ← h]
      rfl
  | cons m todo ih =>
      rw [List.foldl_cons]
      cases haccepts : accepts search request m with
      | false =>
          have hskip : reportMatch search request entry relatedId relatedEntity t m = t := by
            unfold reportMatch
            rw [haccepts, h]
            rfl
          rw [hskip, ih h hroom, List.filter_cons_of_neg (by rw [haccepts]; exact Bool.false_ne_true)]
      | true =>
          rw [List.filter_cons_of_pos haccepts, List.map_cons]
          by_cases hfull : request.maxResults ≤ t.results.length + 1
          · -- this row is the last one
            have hstop : reportMatch search request entry relatedId relatedEntity t m =
                { t with
                  results := t.results ++ [rowOf entry relatedId relatedEntity m]
                  truncated := true } := by
              unfold reportMatch
              rw [haccepts, h]
              dsimp only
              rw [if_neg Bool.false_ne_true, if_pos rfl, if_pos]
              rw [List.length_append, List.length_singleton]
              exact hfull
            rw [hstop, foldl_reportMatch_truncated rfl]
            have hlength : request.maxResults = t.results.length + 1 := by omega
            have htake : ∀ rows, (t.results ++ rowOf entry relatedId relatedEntity m :: rows).take
                request.maxResults = t.results ++ [rowOf entry relatedId relatedEntity m] := by
              intro rows
              rw [hlength, List.take_length_add_append]
              rfl
            rw [htake, decide_eq_true]
            rw [List.length_append, List.length_cons]
            omega
          · have hgo : reportMatch search request entry relatedId relatedEntity t m =
                { t with results := t.results ++ [rowOf entry relatedId relatedEntity m] } := by
              unfold reportMatch
              rw [haccepts, h]
              dsimp only
              rw [if_neg Bool.false_ne_true, if_pos rfl, if_neg]
              rw [List.length_append, List.length_singleton]
              exact hfull
            rw [hgo, @ih { t with results := t.results ++ [rowOf entry relatedId relatedEntity m] } h]
            · simp only [List.append_assoc, List.singleton_append]
            · rw [List.length_append, List.length_singleton]
              exact Nat.not_le.mp hfull

end Matches

section Model
variable {K : Type*} [Field K] [LinearOrder K]

section Report
variable (search : ManifestSearch K) (request : Request) (order : HashOrder search request)

/-- The stored entities next to a stored one. -/
def storedRelated (id : String) : List String :=
  if (search.getEntity id).isSome then
    (related request id).filter fun relatedId => (search.getEntity relatedId).isSome
  else []

/-- The breadth-first search of the traversed map, without the limits on the answer. -/
def searchTree : List (BreadthFirst.Step String) :=
  BreadthFirst.steps (storedRelated search request) request.maxDepth
    (request.map.flatMap Prod.snd) request.startId

/-- The matches that a step of the search reports for the start column. -/
def acceptedMatches (source target : String) : List (ColumnMatch K) :=
  match search.getEntity source, search.getEntity target with
  | some current, some related =>
      (matchesOf search request order source request.startColumn target current related).filter
        (accepts search request)
  | _, _ => []

def rowsOf (e : BreadthFirst.Step String) : List (LineageRow K) :=
  match search.getEntity e.target with
  | some related =>
      (acceptedMatches search request order e.source e.target).map
        (rowOf ⟨e.source, request.startColumn, e.depth - 1, []⟩ e.target related)
  | none => []

structure Report (K : Type*) where
  results : List (LineageRow K)
  truncated : Bool

def reportStep (r : Report K) (e : BreadthFirst.Step String) : Report K :=
  if r.truncated then r
  else
    let rows := r.results ++ rowsOf search request order e
    { results := rows.take request.maxResults
      truncated := request.maxResults ≤ rows.length || request.maxCandidates ≤ e.waiting }

def report (steps : List (BreadthFirst.Step String)) : Report K :=
  steps.foldl (reportStep search request order) ⟨[], false⟩

end Report

section Simulation
variable {search : ManifestSearch K} {request : Request} {order : HashOrder search request}

theorem report_snoc (steps : List (BreadthFirst.Step String)) (e : BreadthFirst.Step String) :
    report search request order (steps ++ [e]) =
      reportStep search request order (report search request order steps) e := by
  unfold report
  rw [List.foldl_append]
  rfl

theorem reportStep_truncated {r : Report K} (h : r.truncated = true)
    (e : BreadthFirst.Step String) : reportStep search request order r e = r := if_pos h

theorem foldl_reportStep_truncated {r : Report K} (h : r.truncated = true)
    (steps : List (BreadthFirst.Step String)) :
    steps.foldl (reportStep search request order) r = r := by
  induction steps with
  | nil => rfl
  | cons e steps ih => rw [List.foldl_cons, reportStep_truncated h, ih]

/-- Nothing is reported behind a limit. -/
theorem report_behind {steps more : List (BreadthFirst.Step String)} (hfront : steps <+: more)
    (h : (report search request order steps).truncated = true) :
    report search request order more = report search request order steps := by
  obtain ⟨rest, rfl⟩ := hfront
  unfold report at h ⊢
  rw [List.foldl_append, foldl_reportStep_truncated h]

/-- The traversal is where the search is, and has reported the steps so far. -/
structure InStep (search : ManifestSearch K) (request : Request)
    (order : HashOrder search request) (t : Traversal K) (s : BreadthFirst.State String) :
    Prop where
  visited : t.visitedEntities = s.seen
  queue : t.queue.map (fun entry => (entry.id, entry.depth)) = s.queue
  unchanged : ∀ entry ∈ t.queue, entry.column = request.startColumn ∧ entry.path = []
  going : t.truncated = false
  room : t.results.length < request.maxResults
  results : report search request order s.steps = ⟨t.results, false⟩

/-- The traversal has stopped at a limit, or goes on. -/
def Agrees (search : ManifestSearch K) (request : Request) (order : HashOrder search request)
    (t : Traversal K) (s : BreadthFirst.State String) : Prop :=
  (t.truncated = true ∧ report search request order s.steps = ⟨t.results, true⟩) ∨
    InStep search request order t s

theorem Agrees.stopped {t : Traversal K} {s s' : BreadthFirst.State String}
    (htruncated : t.truncated = true)
    (h : report search request order s.steps = ⟨t.results, true⟩) (hsteps : s.steps <+: s'.steps) :
    Agrees search request order t s' := by
  refine Or.inl ⟨htruncated, ?_⟩
  rw [report_behind hsteps, h]
  rw [h]

theorem visitRelated_stopped {entry : QueueEntry} {current : Entity} {t : Traversal K}
    (h : t.truncated = true) (relatedId : String) :
    visitRelated search request order entry current t relatedId = t := if_pos h

theorem visitRelated_new {entry : QueueEntry} {current relatedEntity : Entity} {t : Traversal K}
    {s : BreadthFirst.State String} {relatedId : String} (h : InStep search request order t s)
    (hcurrent : search.getEntity entry.id = some current)
    (hrelated : search.getEntity relatedId = some relatedEntity)
    (hcolumn : entry.column = request.startColumn) (hpath : entry.path = [])
    (hnew : relatedId ∉ t.visitedEntities) :
    Agrees search request order
      (visitRelated search request order entry current t relatedId)
      (BreadthFirst.visit entry.id entry.depth s relatedId) := by
  have hqueue : t.queue.length = s.queue.length := by rw [← h.queue, List.length_map]
  obtain ⟨id, column, depth, path⟩ := entry
  dsimp only at hcolumn hpath hcurrent
  subst hcolumn hpath
  -- the rows of this step
  have hrows : (List.map (rowOf ⟨id, request.startColumn, depth, []⟩ relatedId relatedEntity)
      ((matchesOf search request order id request.startColumn relatedId current
        relatedEntity).filter (accepts search request))) =
      rowsOf search request order ⟨id, relatedId, depth + 1, s.queue.length⟩ := by
    unfold rowsOf acceptedMatches
    rw [hrelated, hcurrent]
    rfl
  have hvisit : BreadthFirst.visit id depth s relatedId =
      { seen := relatedId :: s.seen
        queue := s.queue ++ [(relatedId, depth + 1)]
        steps := s.steps ++ [⟨id, relatedId, depth + 1, s.queue.length⟩] } :=
    if_neg (h.visited ▸ hnew)
  have hreport : report search request order (s.steps ++
      [⟨id, relatedId, depth + 1, s.queue.length⟩]) = reportStep search request order
        ⟨t.results, false⟩ ⟨id, relatedId, depth + 1, s.queue.length⟩ := by
    rw [report_snoc, h.results]
  unfold visitRelated
  rw [h.going, if_neg Bool.false_ne_true, if_neg hnew, hrelated]
  dsimp only
  rw [foldl_reportMatch h.going h.room, hrows, hvisit]
  dsimp only
  rw [hqueue]
  unfold reportStep at hreport
  rw [if_neg Bool.false_ne_true] at hreport
  dsimp only at hreport
  split
  · rename_i hfull
    refine Or.inl ⟨rfl, ?_⟩
    rw [hreport, decide_eq_true hfull, Bool.or_true]
  · rename_i hwaits
    rw [decide_eq_false hwaits, Bool.or_false] at hreport
    cases hfull : decide (request.maxResults ≤ (t.results ++ rowsOf search request order
        ⟨id, relatedId, depth + 1, s.queue.length⟩).length) with
    | true =>
        refine Or.inl ⟨rfl, ?_⟩
        rw [hreport, hfull]
    | false =>
        refine Or.inr ⟨?_, ?_, ?_, rfl, ?_, ?_⟩
        · exact congrArg (relatedId :: ·) h.visited
        · dsimp only
          rw [List.map_append, h.queue]
          rfl
        · intro entry hentry
          cases List.mem_append.mp hentry with
          | inl hold => exact h.unchanged entry hold
          | inr hlast =>
              rw [List.mem_singleton.mp hlast]
              exact ⟨rfl, rfl⟩
        · have hlt := of_decide_eq_false hfull
          dsimp only
          rw [List.length_take]
          omega
        · rw [hreport, hfull]

theorem visitRelated_agrees {entry : QueueEntry} {current : Entity} {t : Traversal K}
    {s : BreadthFirst.State String} (h : Agrees search request order t s)
    (hcurrent : search.getEntity entry.id = some current)
    (hcolumn : entry.column = request.startColumn) (hpath : entry.path = []) (relatedId : String) :
    Agrees search request order
      (visitRelated search request order entry current t relatedId)
      (if (search.getEntity relatedId).isSome then
        BreadthFirst.visit entry.id entry.depth s relatedId else s) := by
  cases h with
  | inl hstopped =>
      rw [visitRelated_stopped hstopped.1]
      split
      · exact Agrees.stopped hstopped.1 hstopped.2 (BreadthFirst.visit_steps _ _ _ _)
      · exact Or.inl hstopped
  | inr h =>
      by_cases hseen : relatedId ∈ t.visitedEntities
      · have hstay : visitRelated search request order entry current t relatedId = t := by
          unfold visitRelated
          rw [h.going, if_neg Bool.false_ne_true, if_pos hseen]
        have hvisit : BreadthFirst.visit entry.id entry.depth s relatedId = s :=
          if_pos (h.visited ▸ hseen)
        rw [hstay, hvisit, ite_self]
        exact Or.inr h
      · cases hrelated : search.getEntity relatedId with
        | none =>
            have hstay : visitRelated search request order entry current t relatedId = t := by
              unfold visitRelated
              rw [h.going, if_neg Bool.false_ne_true, if_neg hseen, hrelated]
            rw [hstay]
            exact Or.inr h
        | some relatedEntity =>
            rw [Option.isSome_some, if_pos rfl]
            exact visitRelated_new h hcurrent hrelated hcolumn hpath hseen

theorem foldl_agrees {entry : QueueEntry} {current : Entity}
    (hcurrent : search.getEntity entry.id = some current)
    (hcolumn : entry.column = request.startColumn) (hpath : entry.path = []) (todo : List String)
    {t : Traversal K} {s : BreadthFirst.State String} (h : Agrees search request order t s) :
    Agrees search request order
      (todo.foldl (visitRelated search request order entry current) t)
      ((todo.filter fun relatedId => (search.getEntity relatedId).isSome).foldl
        (BreadthFirst.visit entry.id entry.depth) s) := by
  induction todo generalizing t s with
  | nil => exact h
  | cons relatedId todo ih =>
      have hstep := visitRelated_agrees h hcurrent hcolumn hpath relatedId
      cases hstored : (search.getEntity relatedId).isSome with
      | true =>
          rw [hstored, if_pos rfl] at hstep
          rw [List.filter_cons_of_pos (p := fun relatedId => (search.getEntity relatedId).isSome)
            hstored]
          exact ih hstep
      | false =>
          rw [hstored, if_neg Bool.false_ne_true] at hstep
          rw [List.filter_cons_of_neg (p := fun relatedId => (search.getEntity relatedId).isSome)
            (by rw [hstored]; exact Bool.false_ne_true)]
          exact ih hstep

/-- The traversal reports the steps of the search up to its limits. -/
theorem traverse_report {fuel : ℕ} {t : Traversal K} {s s' : BreadthFirst.State String}
    (h : Agrees search request order t s)
    (hrun : BreadthFirst.search (storedRelated search request) request.maxDepth fuel s =
      some s') :
    ∃ t', traverse search request order fuel t = some t' ∧
      report search request order s'.steps = ⟨t'.results, t'.truncated⟩ := by
  induction fuel generalizing t s with
  | zero => contradiction
  | succ fuel ih =>
      unfold traverse
      cases h with
      | inl hstopped =>
          have hreport := report_behind (BreadthFirst.search_steps hrun)
            (by rw [hstopped.2] : (report search request order s.steps).truncated = true)
          rw [hstopped.2] at hreport
          split
          · exact ⟨t, rfl, hreport.trans (by rw [hstopped.1])⟩
          · rename_i entry rest hqueue
            rw [if_pos hstopped.1]
            exact ⟨_, rfl, hreport.trans (by rw [hstopped.1])⟩
      | inr h =>
          unfold BreadthFirst.search at hrun
          split
          · rename_i hqueue
            have hempty : s.queue = [] := by rw [← h.queue, hqueue, List.map_nil]
            rw [hempty] at hrun
            cases hrun
            exact ⟨t, rfl, h.results.trans (by rw [h.going])⟩
          · rename_i entry rest hqueue
            have hpop : s.queue = (entry.id, entry.depth) ::
                rest.map (fun entry => (entry.id, entry.depth)) := by
              rw [← h.queue, hqueue, List.map_cons]
            rw [hpop] at hrun
            have hentry := h.unchanged entry (by rw [hqueue]; exact List.mem_cons_self)
            have hrest : InStep search request order { t with queue := rest }
                { s with queue := rest.map fun entry => (entry.id, entry.depth) } := by
              refine ⟨h.visited, rfl, ?_, h.going, h.room, h.results⟩
              intro other hother
              apply h.unchanged
              rw [hqueue]
              exact List.mem_cons_of_mem entry hother
            dsimp only at hrun ⊢
            rw [if_neg (Bool.eq_false_iff.mp h.going)]
            unfold BreadthFirst.scan at hrun
            by_cases hdeep : request.maxDepth ≤ entry.depth
            · rw [if_pos hdeep] at hrun ⊢
              exact ih (Or.inr hrest) hrun
            · rw [if_neg hdeep] at hrun ⊢
              cases hcurrent : search.getEntity entry.id with
              | none =>
                  have hnone : storedRelated search request entry.id = [] := by
                    unfold storedRelated
                    rw [hcurrent]
                    rfl
                  rw [hnone] at hrun
                  exact ih (Or.inr hrest) hrun
              | some current =>
                  have hsome : storedRelated search request entry.id =
                      (related request entry.id).filter fun relatedId =>
                        (search.getEntity relatedId).isSome := by
                    unfold storedRelated
                    rw [hcurrent]
                    rfl
                  rw [hsome] at hrun
                  exact ih (foldl_agrees hcurrent hentry.1 hentry.2 _ (Or.inr hrest)) hrun

end Simulation

end Model

end DbtNova.ColumnLineage
