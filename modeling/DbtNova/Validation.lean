import DbtNova.DepthFirst
import Mathlib.Algebra.BigOperators.Group.List.Basic
import Mathlib.Algebra.Order.Ring.Nat
import Mathlib.Data.List.Sort
import Mathlib.Data.String.Basic

/-!
# DAG validation

`validate_dag` of `tools/validation.rs`: the orphaned ids, the cycles of the parent map and
the counts by type. A `HashMap` is the list of its entries in the order of its iteration.
-/
namespace DbtNova.Validation

/-- What `validate_dag` reads of `ManifestSearch`. -/
structure DagIndex where
  ids : List String
  parentMap : List (String × List String)
  childMap : List (String × List String)
  maxPageSize : ℕ

inductive ValidateDagDetail
  | full
  | summary
  deriving DecidableEq

structure CycleIssue where
  nodes : List String
  message : String

/-- The state that the recursive calls of `dfs` share. -/
structure DagSearch where
  visited : Finset String
  onStack : Finset String
  stack : List String
  seenCycles : Finset String
  issues : List CycleIssue

/-- The nodes from one of them on, around the cycle. -/
def rotationKey (nodes : List String) (start : ℕ) : String :=
  (List.range nodes.length).foldl
    (fun key i =>
      (if 0 < i then key ++ "->" else key) ++ nodes.getD ((start + i) % nodes.length) "")
    ""

def canonicalCycleKey (nodes : List String) : String :=
  if nodes.isEmpty then ""
  else (DepthFirst.least ((List.range nodes.length).map (rotationKey nodes))).getD ""

/-- The end of the stack from the node on. -/
def cycleNodes (stack : List String) (node : String) : List String :=
  match stack.idxOf? node with
  | some pos => stack.drop pos
  | none => [node]

def DagSearch.report (s : DagSearch) (node : String) : DagSearch :=
  let nodes := cycleNodes s.stack node
  let key := canonicalCycleKey nodes
  if key ∈ s.seenCycles then s
  else
    { s with
      seenCycles := insert key s.seenCycles
      issues := s.issues ++ [⟨nodes, s!"Cycle detected involving {node}"⟩] }

def DagSearch.enter (s : DagSearch) (node : String) : DagSearch :=
  { s with
    visited := insert node s.visited
    onStack := insert node s.onStack
    stack := s.stack ++ [node] }

def DagSearch.leave (s : DagSearch) (node : String) : DagSearch :=
  { s with
    stack := s.stack.dropLast
    onStack := s.onStack.erase node }

def parents (parentMap : List (String × List String)) (node : String) : List String :=
  (parentMap.lookup node).getD []

/-- Each nested call takes a unit of the fuel. -/
def dfs (parentMap : List (String × List String)) : ℕ → String → DagSearch → Option DagSearch
  | 0, _, _ => none
  | fuel + 1, node, s =>
      if node ∈ s.onStack then some (s.report node)
      else if node ∈ s.visited then some s
      else
        ((parents parentMap node).foldlM (fun s parent => dfs parentMap fuel parent s)
          (s.enter node)).map fun s => s.leave node

def DagSearch.empty : DagSearch := ⟨∅, ∅, [], ∅, []⟩

/-- The search from every key of the parent map. -/
def searchCycles (fuel : ℕ) (parentMap : List (String × List String)) : Option DagSearch :=
  (parentMap.map Prod.fst).foldlM (fun s node => dfs parentMap fuel node s) DagSearch.empty

/-- The ids that neither have a parent nor a child. -/
def orphanedIds (index : DagIndex) : List String :=
  index.ids.filter fun node =>
    !(index.parentMap.lookup node).isSome && !(index.childMap.lookup node).isSome

def resourceTypeOf (id : String) : String :=
  match id.toList.splitOn '.' with
  | resourceType :: _ => String.ofList resourceType
  | [] => "unknown"

/-- One more of a type. -/
def countType : List (String × ℕ) → String → List (String × ℕ)
  | [], resourceType => [(resourceType, 1)]
  | (other, count) :: rest, resourceType =>
      if other = resourceType then (other, count + 1) :: rest
      else (other, count) :: countType rest resourceType

def countByType (ids : List String) : List (String × ℕ) :=
  ids.foldl (fun counts id => countType counts (resourceTypeOf id)) []

/-- An order of the entries of a map. -/
abbrev MapOrder := {order : List (String × ℕ) → List (String × ℕ) // ∀ l, (order l).Perm l}

inductive DagReport
  | summary (valid : Bool) (issueCount orphanedTotal : ℕ) (orphanedByType : List (String × ℕ))
  | full (valid : Bool) (issueCount : ℕ) (issues : List CycleIssue) (orphaned : List String)
      (orphanedTotal : ℕ) (orphanedTruncated : Bool)

structure DagResponse where
  count : ℕ
  truncated : Option Bool
  data : DagReport

/-- The part of `validate_dag` behind the search. -/
def reportOf (mapOrder : MapOrder) (index : DagIndex) (detail : ValidateDagDetail)
    (issues : List CycleIssue) : DagResponse :=
  let orphaned := orphanedIds index
  let orphanTotal := orphaned.length
  let orphanLimit := max index.maxPageSize 1
  let orphanedTruncated := decide (orphanLimit < orphanTotal)
  let orphaned := if orphanedTruncated then orphaned.take orphanLimit else orphaned
  let data :=
    if detail = .summary then
      .summary (issues.length == 0) issues.length orphanTotal
        ((mapOrder.1 (countByType orphaned)).insertionSort fun a b => b.2 ≤ a.2)
    else
      .full (issues.length == 0) issues.length issues orphaned orphanTotal orphanedTruncated
  ⟨issues.length, if orphanedTruncated then some true else none, data⟩

def validateDag (fuel : ℕ) (mapOrder : MapOrder) (index : DagIndex)
    (detail : ValidateDagDetail) : Option DagResponse :=
  (searchCycles fuel index.parentMap).map fun s => reportOf mapOrder index detail s.issues

/-! ## The keys of cycles -/

section Keys
variable {nodes nodes' : List String}

theorem rotationKey_eq {start : ℕ} :
    rotationKey nodes start = rotationKey (nodes.rotate start) 0 := by
  unfold rotationKey
  rw [List.length_rotate]
  apply List.foldl_ext
  intro key i hi
  have hlt : i < nodes.length := List.mem_range.mp hi
  rw [Nat.zero_add, Nat.mod_eq_of_lt hlt, List.getD_eq_getElem?_getD, List.getD_eq_getElem?_getD,
    List.getElem?_rotate hlt, Nat.add_comm start i]

/-- The rotations of a cycle have one key. -/
theorem canonicalCycleKey_rotated (h : nodes ~r nodes') :
    canonicalCycleKey nodes = canonicalCycleKey nodes' := by
  have hempty : nodes.isEmpty = nodes'.isEmpty := h.perm.isEmpty_eq
  have hkeys : ∀ nodes : List String, (List.range nodes.length).map (rotationKey nodes) =
      (List.range nodes.length).map fun start => rotationKey (nodes.rotate start) 0 :=
    fun nodes => List.map_congr_left (fun start _ => rotationKey_eq)
  unfold canonicalCycleKey
  rw [hempty, hkeys, hkeys, DepthFirst.least_rotations (rotationKey · 0) h]

theorem cycleNodes_eq {stack : List String} {node : String} (h : node ∈ stack) :
    ∃ before after, stack = before ++ node :: after ∧ cycleNodes stack node = node :: after := by
  unfold cycleNodes
  induction stack with
  | nil => exact absurd h List.not_mem_nil
  | cons first stack ih =>
      rw [List.idxOf?_cons]
      by_cases hfirst : first = node
      · subst hfirst
        rw [beq_self_eq_true, if_pos rfl]
        exact ⟨[], stack, rfl, rfl⟩
      · rw [if_neg (by simpa using hfirst)]
        have hrest : node ∈ stack := (List.mem_cons.mp h).resolve_left (Ne.symm hfirst)
        obtain ⟨before, after, hstack, hnodes⟩ := ih hrest
        refine ⟨first :: before, after, by rw [hstack, List.cons_append], ?_⟩
        cases hpos : stack.idxOf? node with
        | none => exact absurd hrest (List.idxOf?_eq_none_iff.mp hpos)
        | some pos =>
            rw [hpos] at hnodes
            exact hnodes

end Keys

/-! ## The search -/

section Search
variable {parentMap : List (String × List String)} {s t u : DagSearch} {node : String}

/-- The part of the state that a depth first search has. -/
def DagSearch.search (s : DagSearch) : DepthFirst.State String :=
  ⟨s.visited, s.stack, s.issues.map CycleIssue.nodes⟩

structure Good (parentMap : List (String × List String)) (s : DagSearch) : Prop where
  inv : DepthFirst.Inv (parents parentMap) s.search
  onStack : ∀ node, node ∈ s.onStack ↔ node ∈ s.stack
  seen : ∀ issue ∈ s.issues, canonicalCycleKey issue.nodes ∈ s.seenCycles
  seenOnly : s.issues = [] → s.seenCycles = ∅
  distinct : s.issues.Pairwise fun i j => ¬ i.nodes ~r j.nodes

theorem good_empty (parentMap : List (String × List String)) :
    Good parentMap DagSearch.empty where
  inv := DepthFirst.inv_init (parents parentMap)
  onStack := fun node => iff_of_false (Finset.notMem_empty node) List.not_mem_nil
  seen := fun _ hissue => absurd hissue List.not_mem_nil
  seenOnly := fun _ => rfl
  distinct := List.Pairwise.nil

/-- What the search from some nodes does. -/
structure Searched (parentMap : List (String × List String)) (nodes : List String)
    (s t : DagSearch) : Prop where
  good : Good parentMap t
  stack : t.stack = s.stack
  issues : s.issues <+: t.issues
  settled : t.issues = [] → ∀ node ∈ nodes, DepthFirst.Settled (parents parentMap) node

theorem Searched.refl (h : Good parentMap s) : Searched parentMap [] s s :=
  ⟨h, rfl, List.prefix_refl _, fun _ _ hnode => absurd hnode List.not_mem_nil⟩

theorem Searched.trans {nodes nodes' : List String} (h : Searched parentMap nodes s t)
    (h' : Searched parentMap nodes' t u) : Searched parentMap (nodes ++ nodes') s u where
  good := h'.good
  stack := h'.stack.trans h.stack
  issues := h.issues.trans h'.issues
  settled := by
    intro hnone node hnode
    cases List.mem_append.mp hnode with
    | inl hfirst =>
        have hmid : t.issues = [] := List.prefix_nil.mp (hnone ▸ h'.issues)
        exact h.settled hmid node hfirst
    | inr hsecond => exact h'.settled hnone node hsecond

/-- A way back into the stack is reported, unless the cycle has been before. -/
theorem report_searched (h : Good parentMap s) (hnode : node ∈ s.stack)
    (hfollows : DepthFirst.Follows (parents parentMap) s.stack node) :
    Searched parentMap [node] s (s.report node) ∧ (s.report node).issues ≠ [] := by
  obtain ⟨before, after, hstack, hnodes⟩ := cycleNodes_eq hnode
  have hcycle : DepthFirst.Cycle (parents parentMap) (node :: after) :=
    h.inv.cycle hstack hfollows
  rw [← hnodes] at hcycle
  unfold DagSearch.report
  dsimp only
  split
  · rename_i hseen
    have hsome : s.issues ≠ [] := by
      intro hnone
      rw [h.seenOnly hnone] at hseen
      exact Finset.notMem_empty _ hseen
    exact ⟨⟨h, rfl, List.prefix_refl _, fun hnone => absurd hnone hsome⟩, hsome⟩
  · rename_i hnew
    have hsome : ∀ issue : CycleIssue, s.issues ++ [issue] ≠ [] :=
      fun issue => List.append_ne_nil_of_right_ne_nil _ (List.cons_ne_nil issue [])
    refine ⟨⟨⟨?_, h.onStack, ?_, ?_, ?_⟩, rfl, List.prefix_append _ _, ?_⟩, hsome _⟩
    · have hinv := h.inv.report hcycle
      unfold DagSearch.search at hinv ⊢
      rwa [List.map_append]
    · intro issue hissue
      rw [Finset.mem_insert]
      cases List.mem_append.mp hissue with
      | inl hold => exact Or.inr (h.seen issue hold)
      | inr hlast =>
          rw [List.mem_singleton.mp hlast]
          exact Or.inl rfl
    · exact fun hnone => absurd hnone (hsome _)
    · apply List.pairwise_append.mpr
      refine ⟨h.distinct, List.pairwise_singleton _ _, ?_⟩
      intro issue hissue last hlast hrotated
      rw [List.mem_singleton.mp hlast] at hrotated
      rw [← canonicalCycleKey_rotated hrotated] at hnew
      exact hnew (h.seen issue hissue)
    · exact fun hnone => absurd hnone (hsome _)

theorem enter_good (h : Good parentMap s) (hnew : node ∉ s.visited)
    (hfollows : DepthFirst.Follows (parents parentMap) s.stack node) :
    Good parentMap (s.enter node) where
  inv := h.inv.enter hnew hfollows
  onStack := by
    intro other
    unfold DagSearch.enter
    rw [Finset.mem_insert, h.onStack, List.mem_append, List.mem_singleton, or_comm]
  seen := h.seen
  seenOnly := h.seenOnly
  distinct := h.distinct

/-- When all ways out of the node have been tried, it is left. -/
theorem leave_searched
    (ht : Searched parentMap (parents parentMap node) (s.enter node) t) :
    Searched parentMap [node] s (t.leave node) := by
  have hstack : t.stack = s.stack ++ [node] := ht.stack
  have hleft : t.stack.dropLast = s.stack := by rw [hstack, List.dropLast_concat]
  have hsettled : t.issues = [] → DepthFirst.Settled (parents parentMap) node :=
    fun hnone => DepthFirst.settled_of_next (ht.settled hnone)
  refine ⟨⟨?_, ?_, ht.good.seen, ht.good.seenOnly, ht.good.distinct⟩, hleft, ht.issues, ?_⟩
  · unfold DagSearch.leave DagSearch.search
    dsimp only
    rw [hleft]
    exact ht.good.inv.leave hstack (fun hnone => hsettled (List.map_eq_nil_iff.mp hnone))
  · intro other
    unfold DagSearch.leave
    rw [hleft, Finset.mem_erase, ht.good.onStack, hstack, List.mem_append, List.mem_singleton]
    have hnodup : (s.stack ++ [node]).Nodup := hstack ▸ ht.good.inv.nodup
    have hnot : node ∉ s.stack := fun hnode =>
      List.disjoint_of_nodup_append hnodup hnode (List.mem_singleton_self node)
    constructor
    · rintro ⟨hne, hin | heq⟩
      · exact hin
      · exact absurd heq hne
    · intro hin
      exact ⟨fun heq => hnot (heq ▸ hin), Or.inl hin⟩
  · intro hnone other hother
    rw [List.mem_singleton.mp hother]
    exact hsettled hnone

theorem foldlM_searched {search : DagSearch → String → Option DagSearch}
    (hsearch : ∀ node s t, Good parentMap s →
      DepthFirst.Follows (parents parentMap) s.stack node → search s node = some t →
        Searched parentMap [node] s t)
    (todo : List String) (h : Good parentMap s)
    (hfollows : ∀ node ∈ todo, DepthFirst.Follows (parents parentMap) s.stack node)
    (hrun : todo.foldlM search s = some t) : Searched parentMap todo s t := by
  induction todo generalizing s with
  | nil =>
      rw [List.foldlM_nil] at hrun
      rw [← Option.some.inj hrun]
      exact Searched.refl h
  | cons node todo ih =>
      rw [List.foldlM_cons] at hrun
      obtain ⟨mid, hmid, hrest⟩ := Option.bind_eq_some_iff.mp hrun
      have hfirst : Searched parentMap [node] s mid :=
        hsearch node s mid h (hfollows node List.mem_cons_self) hmid
      apply hfirst.trans (ih hfirst.good _ hrest)
      intro other hother
      rw [hfirst.stack]
      exact hfollows other (List.mem_cons_of_mem node hother)

theorem dfs_searched (fuel : ℕ) (node : String) (s t : DagSearch) (h : Good parentMap s)
    (hfollows : DepthFirst.Follows (parents parentMap) s.stack node)
    (hrun : dfs parentMap fuel node s = some t) : Searched parentMap [node] s t := by
  induction fuel generalizing node s t with
  | zero => contradiction
  | succ fuel ih =>
      unfold dfs at hrun
      split at hrun
      · rename_i hon
        rw [← Option.some.inj hrun]
        exact (report_searched h ((h.onStack node).mp hon) hfollows).1
      · rename_i hoff
        split at hrun
        · rename_i hvisited
          rw [← Option.some.inj hrun]
          refine ⟨h, rfl, List.prefix_refl _, ?_⟩
          intro hnone other hother
          rw [List.mem_singleton.mp hother]
          have hout : node ∉ s.stack := fun hin => hoff ((h.onStack node).mpr hin)
          exact h.inv.settled (List.map_eq_nil_iff.mpr hnone) node hvisited hout
        · rename_i hnew
          obtain ⟨mid, hmid, hleave⟩ := Option.map_eq_some_iff.mp hrun
          rw [← hleave]
          apply leave_searched
          apply foldlM_searched ih _ (enter_good h hnew hfollows) _ hmid
          intro parent hparent last hlast
          have hlast' : last ∈ (s.stack ++ [node]).getLast? := hlast
          rw [List.getLast?_concat, Option.mem_some_iff] at hlast'
          exact hlast' ▸ hparent

theorem searchCycles_searched {fuel : ℕ} (hrun : searchCycles fuel parentMap = some t) :
    Searched parentMap (parentMap.map Prod.fst) DagSearch.empty t := by
  apply foldlM_searched (dfs_searched fuel) _ (good_empty parentMap) _ hrun
  intro node _ last hlast
  contradiction

/-- The keys of the parent map and the parents in it. -/
def dagNodes (parentMap : List (String × List String)) : Finset String :=
  (parentMap.map Prod.fst ++ parentMap.flatMap Prod.snd).toFinset

theorem parents_dagNodes {parent : String} (h : parent ∈ parents parentMap node) :
    parent ∈ dagNodes parentMap := by
  unfold parents at h
  cases hlookup : parentMap.lookup node with
  | none =>
      rw [hlookup] at h
      exact absurd h List.not_mem_nil
  | some ids =>
      rw [hlookup] at h
      obtain ⟨before, after, hmap, -⟩ := List.lookup_eq_some_iff.mp hlookup
      have hentry : (node, ids) ∈ parentMap :=
        hmap ▸ List.mem_append_right _ List.mem_cons_self
      apply List.mem_toFinset.mpr
      exact List.mem_append_right _ (List.mem_flatMap.mpr ⟨_, hentry, h⟩)

/-- The ids that have not been visited. -/
def unvisited (parentMap : List (String × List String)) (s : DagSearch) : Finset String :=
  dagNodes parentMap \ s.visited

theorem unvisited_mono (h : s.visited ⊆ t.visited) :
    (unvisited parentMap t).card ≤ (unvisited parentMap s).card :=
  Finset.card_le_card (Finset.sdiff_subset_sdiff (Finset.Subset.refl _) h)

theorem unvisited_enter (hnode : node ∈ dagNodes parentMap) (hnew : node ∉ s.visited) :
    (unvisited parentMap (s.enter node)).card < (unvisited parentMap s).card := by
  apply Finset.card_lt_card
  refine Finset.ssubset_iff_of_subset ?_ |>.mpr ⟨node, ?_, ?_⟩
  · exact Finset.sdiff_subset_sdiff (Finset.Subset.refl _) (Finset.subset_insert node s.visited)
  · exact Finset.mem_sdiff.mpr ⟨hnode, hnew⟩
  · intro hin
    exact (Finset.mem_sdiff.mp hin).2 (Finset.mem_insert_self node s.visited)

theorem foldlM_total {search : DagSearch → String → Option DagSearch} {bound : ℕ}
    (hsearch : ∀ node s, node ∈ dagNodes parentMap → (unvisited parentMap s).card < bound →
      ∃ t, search s node = some t ∧ s.visited ⊆ t.visited)
    (todo : List String) (htodo : ∀ node ∈ todo, node ∈ dagNodes parentMap)
    (hbound : (unvisited parentMap s).card < bound) :
    ∃ t, todo.foldlM search s = some t ∧ s.visited ⊆ t.visited := by
  induction todo generalizing s with
  | nil => exact ⟨s, rfl, Finset.Subset.refl _⟩
  | cons node todo ih =>
      obtain ⟨mid, hmid, hgrown⟩ := hsearch node s (htodo node List.mem_cons_self) hbound
      obtain ⟨t, ht, hgrown'⟩ :=
        ih (fun other hother => htodo other (List.mem_cons_of_mem _ hother))
        ((unvisited_mono hgrown).trans_lt hbound)
      refine ⟨t, ?_, hgrown.trans hgrown'⟩
      rw [List.foldlM_cons, hmid]
      exact ht

/-- The nesting is at most as deep as there are ids. -/
theorem dfs_total (fuel : ℕ) (node : String) (s : DagSearch) (hnode : node ∈ dagNodes parentMap)
    (hfuel : (unvisited parentMap s).card < fuel) :
    ∃ t, dfs parentMap fuel node s = some t ∧ s.visited ⊆ t.visited := by
  induction fuel generalizing node s with
  | zero => exact absurd hfuel (Nat.not_lt_zero _)
  | succ fuel ih =>
      unfold dfs
      split
      · refine ⟨s.report node, rfl, ?_⟩
        unfold DagSearch.report
        dsimp only
        split <;> exact Finset.Subset.refl _
      · split
        · exact ⟨s, rfl, Finset.Subset.refl _⟩
        · rename_i hnew
          have hlt := unvisited_enter hnode hnew
          obtain ⟨t, ht, hgrown⟩ := foldlM_total ih (parents parentMap node)
            (fun parent hparent => parents_dagNodes hparent)
            (hlt.trans_le (Nat.lt_succ_iff.mp hfuel))
          rw [ht]
          exact ⟨t.leave node, rfl, (Finset.subset_insert node s.visited).trans hgrown⟩

theorem searchCycles_total {fuel : ℕ} (hfuel : (dagNodes parentMap).card < fuel) :
    ∃ t, searchCycles fuel parentMap = some t := by
  have hkeys : ∀ node ∈ parentMap.map Prod.fst, node ∈ dagNodes parentMap :=
    fun node hnode => List.mem_toFinset.mpr (List.mem_append_left _ hnode)
  have hstart : (unvisited parentMap DagSearch.empty).card ≤ (dagNodes parentMap).card :=
    Finset.card_le_card Finset.sdiff_subset
  obtain ⟨t, ht, -⟩ := foldlM_total (dfs_total fuel) (parentMap.map Prod.fst) hkeys
    (hstart.trans_lt hfuel)
  exact ⟨t, ht⟩

theorem settled_of_not_key (h : node ∉ parentMap.map Prod.fst) :
    DepthFirst.Settled (parents parentMap) node := by
  apply DepthFirst.settled_of_next
  intro parent hparent
  unfold parents at hparent
  have hnone : parentMap.lookup node = none := by
    rw [List.lookup_eq_none_iff]
    intro entry hentry
    rw [bne_iff_ne]
    exact fun heq => h (heq ▸ List.mem_map_of_mem hentry)
  rw [hnone] at hparent
  exact absurd hparent List.not_mem_nil

/-- A search that reports nothing has seen all ways end. -/
theorem issues_eq_nil_iff (h : Searched parentMap (parentMap.map Prod.fst) DagSearch.empty t) :
    t.issues = [] ↔ DepthFirst.Acyclic (parents parentMap) := by
  constructor
  · intro hnone
    apply DepthFirst.acyclic_of_settled
    intro node
    by_cases hnode : node ∈ parentMap.map Prod.fst
    · exact h.settled hnone node hnode
    · exact settled_of_not_key hnode
  · intro hacyclic
    by_contra hsome
    obtain ⟨issue, hissue⟩ := List.exists_mem_of_ne_nil _ hsome
    have hcycle := h.good.inv.cycles issue.nodes (List.mem_map_of_mem hissue)
    exact hcycle.not_acyclic hacyclic

end Search

/-! ## The response -/

def DagReport.valid : DagReport → Bool
  | .summary valid _ _ _ => valid
  | .full valid _ _ _ _ _ => valid

def DagReport.issues : DagReport → List CycleIssue
  | .summary _ _ _ _ => []
  | .full _ _ issues _ _ _ => issues

theorem reportOf_valid (mapOrder : MapOrder) (index : DagIndex) (detail : ValidateDagDetail)
    (issues : List CycleIssue) :
    (reportOf mapOrder index detail issues).data.valid = (issues.length == 0) := by
  unfold reportOf
  dsimp only
  split <;> rfl

theorem reportOf_issues (mapOrder : MapOrder) (index : DagIndex) (detail : ValidateDagDetail)
    (issues : List CycleIssue) :
    (reportOf mapOrder index detail issues).data.issues.Sublist issues := by
  unfold reportOf
  dsimp only
  split
  · exact List.nil_sublist issues
  · exact List.Sublist.refl issues

/-- The search ends, and the DAG is valid exactly when no parent edges lead back to a node.
Every issue names the nodes of a cycle, and no two of them name the same cycle. -/
theorem validateDag_valid_iff_acyclic (mapOrder : MapOrder) (index : DagIndex)
    (detail : ValidateDagDetail) :
    ∃ bound, ∀ fuel, bound ≤ fuel →
      ∃ response, validateDag fuel mapOrder index detail = some response ∧
        (response.data.valid = true ↔ DepthFirst.Acyclic (parents index.parentMap)) ∧
        (∀ issue ∈ response.data.issues,
          DepthFirst.Cycle (parents index.parentMap) issue.nodes) ∧
        response.data.issues.Pairwise fun i j => ¬ i.nodes ~r j.nodes := by
  refine ⟨(dagNodes index.parentMap).card + 1, fun fuel hfuel => ?_⟩
  obtain ⟨t, ht⟩ := searchCycles_total (Nat.lt_of_succ_le hfuel)
  have hsearched := searchCycles_searched ht
  have hsub := reportOf_issues mapOrder index detail t.issues
  refine ⟨reportOf mapOrder index detail t.issues, ?_, ?_, ?_, ?_⟩
  · unfold validateDag
    rw [ht, Option.map_some]
  · rw [reportOf_valid, beq_iff_eq, List.length_eq_zero_iff]
    exact issues_eq_nil_iff hsearched
  · intro issue hissue
    exact hsearched.good.inv.cycles _ (List.mem_map_of_mem (hsub.subset hissue))
  · exact hsearched.good.distinct.sublist hsub

/-- The entries in the order in which they are. -/
def keptOrder : MapOrder := ⟨id, fun l => List.Perm.refl l⟩

example :
    (validateDag 4 keptOrder ⟨[], [("a", ["b"]), ("b", ["c", "a"]), ("c", ["c"])], [], 10⟩
      .full).map (fun response => response.data.issues.map CycleIssue.nodes) =
    some [["c"], ["a", "b"]] := by
  decide

/-! ## The counts by type -/

section Counts

def ofType (ids : List String) (resourceType : String) : ℕ :=
  ids.countP fun id => resourceTypeOf id = resourceType

/-- One row for each type of the ids, with the number of them. -/
structure Counts (ids : List String) (rows : List (String × ℕ)) : Prop where
  nodup : (rows.map Prod.fst).Nodup
  exact : ∀ row ∈ rows, row.2 = ofType ids row.1
  sum : (rows.map Prod.snd).sum = ids.length

theorem Counts.perm {ids : List String} {rows rows' : List (String × ℕ)} (h : Counts ids rows)
    (hperm : rows'.Perm rows) : Counts ids rows' where
  nodup := (hperm.map Prod.fst).nodup_iff.mpr h.nodup
  exact := fun row hrow => h.exact row (hperm.mem_iff.mp hrow)
  sum := (hperm.map Prod.snd).sum_eq.trans h.sum

variable {ids : List String} {rows : List (String × ℕ)} {id resourceType : String}

theorem ofType_concat (ids : List String) (id resourceType : String) :
    ofType (ids ++ [id]) resourceType =
      ofType ids resourceType + if resourceTypeOf id = resourceType then 1 else 0 := by
  unfold ofType
  rw [List.countP_append, List.countP_singleton]
  simp only [decide_eq_true_eq]

/-- All that counting one more does. -/
theorem countType_cases (rows : List (String × ℕ)) (resourceType : String) :
    (∃ before count after, rows = before ++ (resourceType, count) :: after ∧
        countType rows resourceType = before ++ (resourceType, count + 1) :: after) ∨
      (resourceType ∉ rows.map Prod.fst ∧
        countType rows resourceType = rows ++ [(resourceType, 1)]) := by
  induction rows with
  | nil => exact Or.inr ⟨List.not_mem_nil, rfl⟩
  | cons row rows ih =>
      obtain ⟨other, count⟩ := row
      unfold countType
      by_cases hother : other = resourceType
      · rw [if_pos hother, hother]
        exact Or.inl ⟨[], count, rows, rfl, rfl⟩
      · rw [if_neg hother]
        cases ih with
        | inl hfound =>
            obtain ⟨before, n, after, hrows, hcounted⟩ := hfound
            refine Or.inl ⟨(other, count) :: before, n, after, ?_, ?_⟩
            · rw [hrows, List.cons_append]
            · rw [hcounted, List.cons_append]
        | inr hnew =>
            refine Or.inr ⟨?_, ?_⟩
            · rw [List.map_cons, List.mem_cons]
              exact not_or.mpr ⟨Ne.symm hother, hnew.1⟩
            · rw [hnew.2, List.cons_append]

/-- A type without a row has no ids. -/
def Complete (ids : List String) (rows : List (String × ℕ)) : Prop :=
  ∀ resourceType, resourceType ∉ rows.map Prod.fst → ofType ids resourceType = 0

/-- An id whose type has a row. -/
theorem counts_found {before after : List (String × ℕ)} {count : ℕ}
    (h : Counts ids (before ++ (resourceTypeOf id, count) :: after)) :
    Counts (ids ++ [id]) (before ++ (resourceTypeOf id, count + 1) :: after) := by
  have hnodup := h.nodup
  rw [List.map_append, List.map_cons] at hnodup
  obtain ⟨hbefore, hafter⟩ : resourceTypeOf id ∉ before.map Prod.fst ∧
      resourceTypeOf id ∉ after.map Prod.fst := by
    rw [List.nodup_middle, List.nodup_cons, List.mem_append] at hnodup
    exact not_or.mp hnodup.1
  constructor
  · rwa [List.map_append, List.map_cons]
  · intro row hrow
    have hother : row ∈ before ∨ row ∈ after → row.2 = ofType (ids ++ [id]) row.1 := by
      intro hin
      have hne : resourceTypeOf id ≠ row.1 := by
        intro heq
        rw [heq] at hbefore hafter
        cases hin with
        | inl hin => exact hbefore (List.mem_map_of_mem hin)
        | inr hin => exact hafter (List.mem_map_of_mem hin)
      rw [ofType_concat, if_neg hne, Nat.add_zero]
      apply h.exact
      rw [List.mem_append, List.mem_cons]
      exact hin.imp_right Or.inr
    rw [List.mem_append, List.mem_cons] at hrow
    rcases hrow with hin | heq | hin
    · exact hother (Or.inl hin)
    · rw [heq, ofType_concat, if_pos rfl]
      have hold := h.exact _ (List.mem_append_right before List.mem_cons_self)
      exact congrArg (· + 1) hold
    · exact hother (Or.inr hin)
  · have hsum := h.sum
    simp only [List.map_append, List.map_cons, List.sum_append, List.sum_cons,
      List.length_append, List.length_singleton] at hsum ⊢
    omega

/-- An id that is the first of its type. -/
theorem counts_new (h : Counts ids rows) (hnone : ofType ids (resourceTypeOf id) = 0)
    (hnew : resourceTypeOf id ∉ rows.map Prod.fst) :
    Counts (ids ++ [id]) (rows ++ [(resourceTypeOf id, 1)]) := by
  constructor
  · rw [List.map_append, List.map_singleton, ← List.concat_eq_append]
    exact h.nodup.concat hnew
  · intro row hrow
    rw [ofType_concat]
    cases List.mem_append.mp hrow with
    | inl hin =>
        have hne : resourceTypeOf id ≠ row.1 := fun heq =>
          hnew (heq ▸ List.mem_map_of_mem hin)
        rw [if_neg hne, Nat.add_zero]
        exact h.exact row hin
    | inr hlast => rw [List.mem_singleton.mp hlast, if_pos rfl, hnone]
  · rw [List.map_append, List.sum_append, h.sum, List.length_append]
    rfl

theorem complete_countType (h : Complete ids rows) :
    Complete (ids ++ [id]) (countType rows (resourceTypeOf id)) := by
  intro resourceType hout
  obtain ⟨hold, hne⟩ : resourceType ∉ rows.map Prod.fst ∧ resourceTypeOf id ≠ resourceType := by
    cases countType_cases rows (resourceTypeOf id) with
    | inl hfound =>
        obtain ⟨before, count, after, hrows, hcounted⟩ := hfound
        rw [hcounted] at hout
        rw [hrows]
        simp only [List.map_append, List.map_cons, List.mem_append, List.mem_cons] at hout ⊢
        exact ⟨hout, fun heq => hout (Or.inr (Or.inl heq.symm))⟩
    | inr hnew =>
        rw [hnew.2, List.map_append, List.mem_append, not_or] at hout
        exact ⟨hout.1, fun heq => hout.2 (heq ▸ List.mem_singleton_self _)⟩
  rw [ofType_concat, if_neg hne, h _ hold]

theorem counts_countType (h : Counts ids rows) (hcomplete : Complete ids rows) :
    Counts (ids ++ [id]) (countType rows (resourceTypeOf id)) := by
  cases countType_cases rows (resourceTypeOf id) with
  | inl hfound =>
      obtain ⟨before, count, after, hrows, hcounted⟩ := hfound
      rw [hcounted]
      exact counts_found (hrows ▸ h)
  | inr hnew =>
      rw [hnew.2]
      exact counts_new h (hcomplete _ hnew.1) hnew.1

theorem counts_countByType (ids : List String) : Counts ids (countByType ids) := by
  have hboth : Counts ids (countByType ids) ∧ Complete ids (countByType ids) := by
    induction ids using List.reverseRecOn with
    | nil =>
        refine ⟨⟨List.nodup_nil, fun _ hrow => absurd hrow List.not_mem_nil, rfl⟩, ?_⟩
        exact fun _ _ => rfl
    | append_singleton ids id ih =>
        have hstep :
            countByType (ids ++ [id]) = countType (countByType ids) (resourceTypeOf id) := by
          unfold countByType
          rw [List.foldl_concat]
        rw [hstep]
        exact ⟨counts_countType ih.1 ih.2, complete_countType ih.2⟩
  exact hboth.1

end Counts

/-- The counts by type are those of the orphaned ids, and add up to the total. -/
def SummaryAgrees (index : DagIndex) : DagReport → Prop
  | .summary _ _ orphanedTotal orphanedByType =>
      (orphanedByType.map Prod.snd).sum = orphanedTotal ∧
        ∀ row ∈ orphanedByType, row.2 = ofType (orphanedIds index) row.1
  | .full _ _ _ _ _ _ => True

theorem reportOf_agrees_iff (mapOrder : MapOrder) (index : DagIndex)
    (issues : List CycleIssue) :
    SummaryAgrees index (reportOf mapOrder index .summary issues).data ↔
      (orphanedIds index).length ≤ max index.maxPageSize 1 := by
  unfold reportOf
  dsimp only
  rw [if_pos rfl]
  have hcounts : ∀ ids : List String, Counts ids
      ((mapOrder.1 (countByType ids)).insertionSort fun a b => b.2 ≤ a.2) := fun ids =>
    (counts_countByType ids).perm ((List.perm_insertionSort _ _).trans (mapOrder.2 _))
  by_cases hlimit : max index.maxPageSize 1 < (orphanedIds index).length
  · rw [if_pos (decide_eq_true hlimit)]
    refine iff_of_false ?_ (Nat.not_le.mpr hlimit)
    intro hagrees
    have hsum := (hcounts ((orphanedIds index).take (max index.maxPageSize 1))).sum
    rw [hagrees.1, List.length_take] at hsum
    omega
  · rw [if_neg (by rw [decide_eq_false hlimit]; exact Bool.false_ne_true)]
    refine iff_of_true ?_ (Nat.not_lt.mp hlimit)
    exact ⟨(hcounts _).sum, (hcounts _).exact⟩

/-- The summary agrees with its total exactly when the orphaned ids fit on a page. -/
theorem validateDag_summary_agrees_iff (mapOrder : MapOrder) (index : DagIndex) :
    ∃ bound, ∀ fuel, bound ≤ fuel →
      ∃ response, validateDag fuel mapOrder index .summary = some response ∧
        (SummaryAgrees index response.data ↔
          (orphanedIds index).length ≤ max index.maxPageSize 1) := by
  refine ⟨(dagNodes index.parentMap).card + 1, fun fuel hfuel => ?_⟩
  obtain ⟨t, ht⟩ := searchCycles_total (Nat.lt_of_succ_le hfuel)
  refine ⟨reportOf mapOrder index .summary t.issues, ?_, reportOf_agrees_iff _ _ _⟩
  unfold validateDag
  rw [ht, Option.map_some]

/-- Two orphaned ids and a page of one of them. -/
def twoOrphans : DagIndex := ⟨["model.a.x", "seed.a.y"], [], [], 1⟩

theorem validateDag_summary_short :
    ∃ response, validateDag 1 keptOrder twoOrphans .summary = some response ∧
      ¬ SummaryAgrees twoOrphans response.data := by
  refine ⟨reportOf keptOrder twoOrphans .summary [], rfl, ?_⟩
  rw [reportOf_agrees_iff]
  decide

end DbtNova.Validation
