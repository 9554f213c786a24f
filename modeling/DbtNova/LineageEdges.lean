import DbtNova.LineageCache

/-!
# The edges of a lineage answer

`get_lineage` records an edge where it takes an id into the result: from the id that is being
expanded, which the filter may have left out. A run is told by the calls of the loop body,
each with the state before it.
-/
namespace DbtNova.LineageEdges
open Lineage LineageCache

/-- A call of the loop body, in the state before it. -/
structure Call where
  id : String
  depthUsed : ℕ
  before : Traversal
  relId : String

/-- The branch of the loop body that takes the related id into the result. -/
def Call.taken (request : Request) (c : Call) : Bool :=
  let nextDepth := c.depthUsed + (request.allowed c.relId).toNat
  !c.before.truncated && decide (nextDepth ≤ request.maxDepth) &&
    shouldVisit (c.before.visitedDepth c.relId) nextDepth &&
    (request.allowed c.relId && !c.before.result.contains c.relId)

def bodyCalls (request : Request) (id : String) (depthUsed : ℕ) : Traversal → List String → List Call
  | _, [] => []
  | t, relId :: todo =>
      ⟨id, depthUsed, t, relId⟩ ::
        bodyCalls request id depthUsed (visitRelated request id depthUsed t relId) todo

/-- The calls of a run, in their order. -/
def calls (request : Request) : ℕ → Traversal → List Call
  | 0, _ => []
  | fuel + 1, t =>
      match t.queue with
      | [] => []
      | (id, depthUsed) :: rest =>
          if t.truncated then []
          else
            let t := { t with queue := rest, depthReached := max t.depthReached depthUsed }
            bodyCalls request id depthUsed t (related request id) ++
              calls request fuel
                ((related request id).foldl (visitRelated request id depthUsed) t)

def takes (request : Request) (calls : List Call) : List (String × String) :=
  (calls.filter (Call.taken request)).map fun c => (c.id, c.relId)

/-- An edge from the id that is expanded to the one that is found, in the direction of the
manifest. -/
def orient (request : Request) (near far : String) : String × String :=
  if request.upstream then (far, near) else (near, far)

/-! ## One call -/

section Call
variable {request : Request} {rootId id relId : String} {depthUsed : ℕ} {t : Traversal}
  {found : List (String × String)}

/-- The root, an id that the filter leaves out, or one of these. -/
def NearKnown (request : Request) (rootId : String) (ids : List String) (u : String) : Prop :=
  u = rootId ∨ request.allowed u = false ∨ u ∈ ids

/-- The edges and the result tell the pairs that were found. -/
structure Traced (request : Request) (rootId : String) (found : List (String × String))
    (t : Traversal) : Prop where
  edges : t.edges = found.map fun pair => orient request pair.1 pair.2
  result : t.result = found.map Prod.snd
  related : ∀ pair ∈ found, pair.2 ∈ related request pair.1 ∧ request.allowed pair.2 = true
  near : ∀ before pair, before ++ [pair] <+: found →
    NearKnown request rootId (before.map Prod.snd) pair.1
  queue : ∀ entry ∈ t.queue, NearKnown request rootId t.result entry.1

theorem NearKnown.mono {ids ids' : List String} {u : String}
    (h : NearKnown request rootId ids u) (hsub : ids ⊆ ids') :
    NearKnown request rootId ids' u := by
  unfold NearKnown at h ⊢
  exact h.imp_right fun hright => hright.imp_right fun hmem => hsub hmem

theorem orient_injective {near far near' far' : String}
    (h : orient request near far = orient request near' far') : near = near' ∧ far = far' := by
  unfold orient at h
  split at h
  · exact ⟨(Prod.mk.inj h).2, (Prod.mk.inj h).1⟩
  · exact Prod.mk.inj h

/-- All that a call does: nothing, or it puts the related id into the queue and takes it or
not. -/
theorem visitRelated_cases (request : Request) (id : String) (depthUsed : ℕ) (t : Traversal)
    (relId : String) :
    (Call.taken request ⟨id, depthUsed, t, relId⟩ = false ∧
        visitRelated request id depthUsed t relId = t) ∨
      ∃ depth, (visitRelated request id depthUsed t relId).queue = t.queue ++ [(relId, depth)] ∧
        ((Call.taken request ⟨id, depthUsed, t, relId⟩ = false ∧
            (request.allowed relId = false ∨ relId ∈ t.result) ∧
            (visitRelated request id depthUsed t relId).result = t.result ∧
            (visitRelated request id depthUsed t relId).edges = t.edges) ∨
          (Call.taken request ⟨id, depthUsed, t, relId⟩ = true ∧
            request.allowed relId = true ∧ relId ∉ t.result ∧
            (visitRelated request id depthUsed t relId).result = t.result ++ [relId] ∧
            (visitRelated request id depthUsed t relId).edges =
              if t.edges.contains (orient request id relId) then t.edges
              else t.edges ++ [orient request id relId])) := by
  unfold visitRelated Call.taken orient
  by_cases hstopped : t.truncated = true
  · exact Or.inl (by simp [hstopped])
  · by_cases hdeep : request.maxDepth < depthUsed + (request.allowed relId).toNat
    · exact Or.inl (by simp [hstopped, hdeep])
    · cases hvisit : shouldVisit (t.visitedDepth relId)
          (depthUsed + (request.allowed relId).toNat) with
      | false => exact Or.inl (by simp [hstopped, hdeep, hvisit])
      | true =>
          refine Or.inr ⟨depthUsed + (request.allowed relId).toNat, ?_⟩
          have hle := Nat.not_lt.mp hdeep
          dsimp only
          rw [if_neg hstopped, if_neg hdeep, hvisit, Bool.not_true, if_neg Bool.false_ne_true,
            Bool.eq_false_iff.mpr hstopped, decide_eq_true hle, Bool.not_false, Bool.true_and,
            Bool.true_and]
          cases htakes : (request.allowed relId && !t.result.contains relId) with
          | true =>
              have hboth : request.allowed relId = true ∧ relId ∉ t.result := by
                simpa using htakes
              rw [if_pos rfl]
              refine ⟨?_, Or.inr ⟨rfl, hboth.1, hboth.2, ?_⟩⟩
              · split <;> rfl
              · split
                · exact ⟨rfl, rfl⟩
                · exact ⟨rfl, rfl⟩
          | false =>
              have hneither : request.allowed relId = false ∨ relId ∈ t.result := by
                cases hallowed : request.allowed relId with
                | false => exact Or.inl rfl
                | true => exact Or.inr (by simpa [hallowed] using htakes)
              rw [if_neg Bool.false_ne_true]
              exact ⟨rfl, Or.inl ⟨rfl, hneither, rfl, rfl⟩⟩

theorem takes_cons (c : Call) (rest : List Call) :
    takes request (c :: rest) =
      (if c.taken request then [(c.id, c.relId)] else []) ++ takes request rest := by
  unfold takes
  cases htaken : c.taken request with
  | true => rw [List.filter_cons_of_pos htaken, if_pos rfl, List.map_cons, List.singleton_append]
  | false =>
      rw [List.filter_cons_of_neg (Bool.eq_false_iff.mp htaken), if_neg Bool.false_ne_true,
        List.nil_append]

theorem takes_append (front rest : List Call) :
    takes request (front ++ rest) = takes request front ++ takes request rest := by
  unfold takes
  rw [List.filter_append, List.map_append]

theorem visitRelated_traced (h : Traced request rootId found t)
    (hid : NearKnown request rootId t.result id) (hrelated : relId ∈ related request id) :
    Traced request rootId
      (found ++ takes request [⟨id, depthUsed, t, relId⟩])
      (visitRelated request id depthUsed t relId) := by
  have hqueue : ∀ depth, ∀ ids, t.result ⊆ ids → NearKnown request rootId ids relId →
      ∀ entry ∈ t.queue ++ [(relId, depth)], NearKnown request rootId ids entry.1 := by
    intro depth ids hsub hrel entry hentry
    cases List.mem_append.mp hentry with
    | inl hold => exact (h.queue entry hold).mono hsub
    | inr hlast =>
        rw [List.mem_singleton.mp hlast]
        exact hrel
  rw [takes_cons]
  rcases visitRelated_cases request id depthUsed t relId with hstay | ⟨depth, hput, hskip | htake⟩
  · rw [hstay.1, hstay.2, if_neg Bool.false_ne_true, List.nil_append]
    exact (List.append_nil found).symm ▸ h
  · obtain ⟨hnot, hknown, hresult, hedges⟩ := hskip
    rw [hnot, if_neg Bool.false_ne_true, List.nil_append]
    change Traced request rootId (found ++ []) _
    rw [List.append_nil]
    refine ⟨hedges ▸ h.edges, hresult ▸ h.result, h.related, h.near, ?_⟩
    rw [hput, hresult]
    exact hqueue depth t.result (List.Subset.refl _) (Or.inr hknown)
  · obtain ⟨htaken, hallowed, hnew, hresult, hedges⟩ := htake
    rw [htaken, if_pos rfl]
    change Traced request rootId (found ++ [(id, relId)]) _
    have hfresh : t.edges.contains (orient request id relId) = false := by
      rw [List.contains_eq_mem, decide_eq_false_iff_not]
      intro hmem
      rw [h.edges] at hmem
      obtain ⟨pair, hpair, hsame⟩ := List.mem_map.mp hmem
      apply hnew
      rw [h.result, ← (orient_injective hsame).2]
      exact List.mem_map_of_mem hpair
    rw [hfresh, if_neg Bool.false_ne_true] at hedges
    constructor
    · rw [hedges, h.edges, List.map_append, List.map_singleton]
    · rw [hresult, h.result, List.map_append, List.map_singleton]
    · intro pair hpair
      cases List.mem_append.mp hpair with
      | inl hold => exact h.related pair hold
      | inr hlast =>
          rw [List.mem_singleton.mp hlast]
          exact ⟨hrelated, hallowed⟩
    · intro before pair hfront
      cases List.prefix_concat_iff.mp hfront with
      | inl hlast =>
          obtain ⟨rfl, hpair⟩ := List.append_inj' hlast rfl
          cases hpair
          rw [← h.result]
          exact hid
      | inr hold => exact h.near before pair hold
    · rw [hput, hresult]
      exact hqueue depth _ (List.subset_append_left _ _)
        (Or.inr (Or.inr (List.mem_append_right _ (List.mem_singleton_self relId))))

theorem foldl_traced {todo : List String} (h : Traced request rootId found t)
    (hid : NearKnown request rootId t.result id) (htodo : ∀ v ∈ todo, v ∈ related request id) :
    Traced request rootId (found ++ takes request (bodyCalls request id depthUsed t todo))
      (todo.foldl (visitRelated request id depthUsed) t) := by
  induction todo generalizing t found with
  | nil => exact (List.append_nil found).symm ▸ h
  | cons v todo ih =>
      rw [List.forall_mem_cons] at htodo
      have hstep := @visitRelated_traced request rootId id v depthUsed t found h hid htodo.1
      have hsub : t.result ⊆ (visitRelated request id depthUsed t v).result := by
        rw [hstep.result, h.result, List.map_append]
        exact List.subset_append_left _ _
      have hrest := ih hstep (hid.mono hsub) htodo.2
      rw [List.append_assoc, ← takes_append] at hrest
      exact hrest

end Call

/-! ## A run -/

section Run
variable {request : Request} {rootId : String} {t t' : Traversal}
  {found : List (String × String)}

theorem traverse_traced {fuel : ℕ} (h : Traced request rootId found t)
    (hrun : Lineage.traverse request fuel t = some t') :
    Traced request rootId (found ++ takes request (calls request fuel t)) t' := by
  induction fuel generalizing t found with
  | zero => contradiction
  | succ fuel ih =>
      unfold Lineage.traverse at hrun
      unfold calls
      cases hqueue : t.queue with
      | nil =>
          rw [hqueue] at hrun
          cases hrun
          change Traced request rootId (found ++ []) _
          rw [List.append_nil]
          exact h
      | cons entry rest =>
          obtain ⟨id, depthUsed⟩ := entry
          rw [hqueue] at hrun
          have hid : NearKnown request rootId t.result id :=
            h.queue (id, depthUsed) (by rw [hqueue]; exact List.mem_cons_self)
          have hrest : ∀ entry ∈ rest, NearKnown request rootId t.result entry.1 := by
            intro entry hentry
            apply h.queue
            rw [hqueue]
            exact List.mem_cons_of_mem _ hentry
          dsimp only at hrun ⊢
          split at hrun
          · rename_i hstopped
            cases hrun
            rw [if_pos hstopped]
            change Traced request rootId (found ++ []) _
            rw [List.append_nil]
            exact ⟨h.edges, h.result, h.related, h.near, hrest⟩
          · rename_i hgoing
            rw [if_neg hgoing, takes_append, ← List.append_assoc]
            exact ih (foldl_traced ⟨h.edges, h.result, h.related, h.near, hrest⟩ hid
              (fun _ hv => hv)) hrun

theorem start_traced (request : Request) (rootId : String) :
    Traced request rootId [] (start rootId) := by
  refine ⟨rfl, rfl, fun _ hpair => absurd hpair List.not_mem_nil, ?_, ?_⟩
  · intro before pair hfront
    exact absurd (List.prefix_nil.mp hfront) (List.append_ne_nil_of_right_ne_nil _
      (List.cons_ne_nil _ _))
  · intro entry hentry
    rw [List.mem_singleton.mp hentry]
    exact Or.inl rfl

/-- The pairs that a run from the start takes. -/
theorem run_traced {fuel : ℕ} (hrun : Lineage.traverse request fuel (start rootId) = some t) :
    Traced request rootId (takes request (calls request fuel (start rootId))) t :=
  traverse_traced (start_traced request rootId) hrun

end Run

/-! ## Edges between what is returned -/

section Returned
variable {request : Request} {rootId : String} {t : Traversal}

/-- An id without an entity is named at standard detail, left out at compact detail and null at
full detail. -/
def returnedIds (detail : DetailLevel) (stored : String → Bool) (result : List String) :
    List String :=
  match detail with
  | .standard => result
  | .compact | .full => result.filter stored

/-- What the edges reach from the root. -/
inductive Joined (request : Request) (rootId : String) (edges : List (String × String)) :
    String → Prop
  | root : Joined request rootId edges rootId
  | step {u v : String} : Joined request rootId edges u → orient request u v ∈ edges →
      Joined request rootId edges v

/-- The edges are edges of the map between the root and what is returned, and join all of it to
the root. -/
structure EdgesConnect (request : Request) (rootId : String) (returned : List String)
    (edges : List (String × String)) : Prop where
  edge : ∀ edge ∈ edges, ∃ u v, edge = orient request u v ∧ v ∈ related request u ∧
    (u = rootId ∨ u ∈ returned) ∧ (v = rootId ∨ v ∈ returned)
  joined : ∀ v ∈ returned, Joined request rootId edges v

/-- A call takes an id while it expands the root or an id of an allowed type, and the id is one
that the response can name. -/
def Call.Proper (request : Request) (rootId : String) (detail : DetailLevel)
    (stored : String → Bool) (c : Call) : Prop :=
  c.taken request = true →
    (c.id = rootId ∨ request.allowed c.id = true) ∧ (detail = .standard ∨ stored c.relId = true)

theorem mem_returnedIds {detail : DetailLevel} {stored : String → Bool} {result : List String}
    {v : String} : v ∈ returnedIds detail stored result ↔
      v ∈ result ∧ (detail = .standard ∨ stored v = true) := by
  unfold returnedIds
  cases detail with
  | standard => simp
  | compact => simp
  | full => simp

theorem mem_takes {cs : List Call} {pair : String × String} :
    pair ∈ takes request cs ↔ ∃ c ∈ cs, c.taken request = true ∧ (c.id, c.relId) = pair := by
  unfold takes
  simp only [List.mem_map, List.mem_filter, and_assoc]

section Proper
variable {detail : DetailLevel} {stored : String → Bool} {found : List (String × String)}
  (h : Traced request rootId found t)
  (hproper : ∀ pair ∈ found, (pair.1 = rootId ∨ request.allowed pair.1 = true) ∧
    (detail = .standard ∨ stored pair.2 = true))
include h hproper

theorem Traced.near_returned {before : List (String × String)} {pair : String × String}
    (hfront : before ++ [pair] <+: found) :
    pair.1 = rootId ∨ pair.1 ∈ before.map Prod.snd := by
  have hpair : pair ∈ found :=
    hfront.subset (List.mem_append_right _ (List.mem_singleton_self pair))
  rcases h.near before pair hfront with hroot | hout | hknown
  · exact Or.inl hroot
  · cases (hproper pair hpair).1 with
    | inl hroot => exact Or.inl hroot
    | inr hallowed =>
        rw [hout] at hallowed
        exact absurd hallowed Bool.false_ne_true
  · exact Or.inr hknown

/-- Each id is joined to the root through those that were taken before it. -/
theorem Traced.joined {before : List (String × String)} (hfront : before <+: found) :
    ∀ pair ∈ before, Joined request rootId t.edges pair.2 := by
  induction before using List.reverseRecOn with
  | nil => exact fun _ hpair => absurd hpair List.not_mem_nil
  | append_singleton before pair ih =>
      have hbefore := ih ((List.prefix_append before [pair]).trans hfront)
      intro other hother
      cases List.mem_append.mp hother with
      | inl hold => exact hbefore other hold
      | inr hlast =>
          rw [List.mem_singleton.mp hlast]
          have hedge : orient request pair.1 pair.2 ∈ t.edges := by
            rw [h.edges]
            exact List.mem_map_of_mem (f := fun pair => orient request pair.1 pair.2)
              (hfront.subset (List.mem_append_right _ (List.mem_singleton_self pair)))
          refine Joined.step ?_ hedge
          cases h.near_returned hproper hfront with
          | inl hroot =>
              rw [hroot]
              exact Joined.root
          | inr hknown =>
              obtain ⟨earlier, hearlier, hsame⟩ := List.mem_map.mp hknown
              rw [← hsame]
              exact hbefore earlier hearlier

theorem Traced.edgesConnect :
    EdgesConnect request rootId (returnedIds detail stored t.result) t.edges := by
  have hreturned : ∀ pair ∈ found, pair.2 ∈ returnedIds detail stored t.result := by
    intro pair hpair
    refine mem_returnedIds.mpr ⟨?_, (hproper pair hpair).2⟩
    rw [h.result]
    exact List.mem_map_of_mem hpair
  constructor
  · intro edge hedge
    rw [h.edges] at hedge
    obtain ⟨pair, hpair, rfl⟩ := List.mem_map.mp hedge
    refine ⟨pair.1, pair.2, rfl, (h.related pair hpair).1, ?_, Or.inr (hreturned pair hpair)⟩
    obtain ⟨before, behind, rfl⟩ := List.append_of_mem hpair
    have hfront : before ++ [pair] <+: before ++ pair :: behind := ⟨behind, by simp⟩
    cases h.near_returned hproper hfront with
    | inl hroot => exact Or.inl hroot
    | inr hknown =>
        obtain ⟨earlier, hearlier, hsame⟩ := List.mem_map.mp hknown
        rw [← hsame]
        exact Or.inr (hreturned earlier (List.mem_append_left _ hearlier))
  · intro v hv
    have hmem := (mem_returnedIds.mp hv).1
    rw [h.result] at hmem
    obtain ⟨pair, hpair, rfl⟩ := List.mem_map.mp hmem
    exact h.joined hproper List.prefix_rfl pair hpair

end Proper

theorem edgesConnect_iff {fuel : ℕ} (hrun : Lineage.traverse request fuel (start rootId) = some t)
    (hgood : Good request rootId t) (detail : DetailLevel) (stored : String → Bool) :
    EdgesConnect request rootId (returnedIds detail stored t.result) t.edges ↔
      ∀ c ∈ calls request fuel (start rootId), c.Proper request rootId detail stored := by
  have htraced := run_traced hrun
  constructor
  · intro h c hc htaken
    have hpair : (c.id, c.relId) ∈ takes request (calls request fuel (start rootId)) :=
      mem_takes.mpr ⟨c, hc, htaken, rfl⟩
    have hedge : orient request c.id c.relId ∈ t.edges := by
      rw [htraced.edges]
      exact List.mem_map.mpr ⟨_, hpair, rfl⟩
    obtain ⟨u, v, hsame, -, hnear, hfar⟩ := h.edge _ hedge
    obtain ⟨rfl, rfl⟩ := orient_injective hsame
    have hresult : c.relId ∈ t.result := by
      rw [htraced.result]
      exact List.mem_map.mpr ⟨_, hpair, rfl⟩
    constructor
    · cases hnear with
      | inl hroot => exact Or.inl hroot
      | inr hreturned =>
          exact Or.inr ((hgood.mem _).mp (mem_returnedIds.mp hreturned).1).2.1
    · cases hfar with
      | inl hroot => exact absurd hroot ((hgood.mem _).mp hresult).1
      | inr hreturned => exact (mem_returnedIds.mp hreturned).2
  · intro h
    apply htraced.edgesConnect
    intro pair hpair
    obtain ⟨c, hc, htaken, rfl⟩ := mem_takes.mp hpair
    exact h c hc htaken

/-- A filter that leaves nothing out, and a store that has everything. -/
theorem proper_of_unfiltered {fuel : ℕ} {detail : DetailLevel} {stored : String → Bool}
    (hallowed : ∀ id, request.allowed id = true)
    (hstored : detail = .standard ∨ ∀ id, stored id = true) :
    ∀ c ∈ calls request fuel (start rootId), c.Proper request rootId detail stored :=
  fun c _ _ => ⟨Or.inr (hallowed c.id), hstored.imp_right fun h => h c.relId⟩

end Returned

/-- A seed between a source and a model, and only models wanted. -/
def throughSeed : LineageIndex where
  parentMap := []
  childMap := [("source.a", ["seed.b"]), ("seed.b", ["model.c"])]
  resourceTypeById := [("source.a", "source"), ("seed.b", "seed"), ("model.c", "model")]

end DbtNova.LineageEdges
