import Mathlib.Data.List.Dedup
import Mathlib.Data.List.Infix

/-!
# File trees

A tree is a list of locations, names from the root down, with what stands there. A
location listed twice holds what comes first. Links, permissions and times are left
out, and an operation fails only for what the tree itself shows; that a name is
taken, that a component on the way is a file, that a directory would be moved into
itself.

`Mirrors` relates a tree below one of its directories to a tree of its own: an
operation below the directory does there what it does in the tree taken alone.
-/
namespace FileTree

inductive IoError where
  | notFound
  | notADirectory
  | alreadyExists
  | isADirectory
  | invalidInput
  | directoryNotEmpty
  deriving DecidableEq, Repr

inductive Node (β : Type) where
  | dir
  | file (content : β)
  deriving DecidableEq, Repr

abbrev Tree (α β : Type) := List (List α × Node β)

section Operations
variable {α β : Type} [DecidableEq α]

def node : Tree α β → List α → Option (Node β)
  | [], _ => none
  | (key, value) :: rest, p => if key = p then some value else node rest p

def isDir (t : Tree α β) (p : List α) : Bool :=
  match node t p with
  | some .dir => true
  | _ => false

def isFile (t : Tree α β) (p : List α) : Bool :=
  match node t p with
  | some (.file _) => true
  | _ => false

def isPresent (t : Tree α β) (p : List α) : Bool := (node t p).isSome

/-- The names in a directory. -/
def children (t : Tree α β) (p : List α) : List α :=
  (t.filterMap fun e => if e.1.dropLast = p then e.1.getLast? else none).dedup

def createDirAll (t : Tree α β) (p : List α) : Except IoError (Tree α β) :=
  if isFile t p then .error .alreadyExists
  else if p.inits.any (isFile t) then .error .notADirectory
  else .ok (p.inits.map (fun q => (q, .dir)) ++ t)

def createDir (t : Tree α β) (p : List α) : Except IoError (Tree α β) :=
  if isFile t p then .error .alreadyExists else .ok ((p, .dir) :: t)

def writeFile (t : Tree α β) (p : List α) (content : β) : Except IoError (Tree α β) :=
  if isDir t p then .error .isADirectory else .ok ((p, .file content) :: t)

def removeDirAll (t : Tree α β) (p : List α) : Tree α β :=
  t.filter fun e => ¬ p <+: e.1

/-- Where a node stands once `source` is `target`. -/
def movedKey (source target key : List α) : List α :=
  if source <+: key then target ++ key.drop source.length else key

/-- Moves a directory to a name that is free. -/
def rename (t : Tree α β) (source target : List α) : Except IoError (Tree α β) :=
  if !isPresent t source || !isDir t target.dropLast then .error .notFound
  else if source <+: target then .error .invalidInput
  else if isPresent t target then .error .directoryNotEmpty
  else
    .ok ((removeDirAll t target).map fun e => (movedKey source target e.1, e.2))

end Operations

section Lookup
variable {α β : Type} [DecidableEq α] {t t' : Tree α β} {p q : List α}

theorem node_append (xs ys : Tree α β) (q : List α) :
    node (xs ++ ys) q = (node xs q).or (node ys q) := by
  induction xs with
  | nil => rfl
  | cons e xs ih =>
      change (if e.1 = q then some e.2 else node (xs ++ ys) q) =
        (if e.1 = q then some e.2 else node xs q).or (node ys q)
      by_cases he : e.1 = q
      · rw [if_pos he, if_pos he]
        rfl
      · rw [if_neg he, if_neg he]
        exact ih

theorem node_filter (keep : List α → Bool) (t : Tree α β) (q : List α) :
    node (t.filter fun e => keep e.1) q = if keep q then node t q else none := by
  induction t with
  | nil => cases keep q <;> rfl
  | cons e t ih =>
      by_cases he : e.1 = q
      · cases hkeep : keep e.1 with
        | false =>
            rw [List.filter_cons_of_neg (by simp [hkeep]), ih, ← he, hkeep]
            rfl
        | true =>
            rw [List.filter_cons_of_pos (by simp [hkeep]), ← he, hkeep]
            simp only [node, if_true]
      · cases hkeep : keep e.1 with
        | false =>
            rw [List.filter_cons_of_neg (by simp [hkeep]), ih]
            simp only [node, if_neg he]
        | true =>
            rw [List.filter_cons_of_pos (by simp [hkeep])]
            simp only [node, if_neg he]
            exact ih

theorem node_eq_none (h : ∀ e ∈ t, e.1 ≠ q) : node t q = none := by
  induction t with
  | nil => rfl
  | cons e t ih =>
      simp only [node, if_neg (h e List.mem_cons_self)]
      exact ih fun e' he' => h e' (List.mem_cons_of_mem e he')

theorem node_removeDirAll (t : Tree α β) (p q : List α) :
    node (removeDirAll t p) q = if p <+: q then none else node t q := by
  unfold removeDirAll
  rw [node_filter (fun key => decide (¬ p <+: key)) t q]
  by_cases h : p <+: q
  · simp [h]
  · simp [h]

theorem node_map_dir (keys : List (List α)) (q : List α) :
    node (keys.map fun key => ((key, .dir) : List α × Node β)) q =
      if q ∈ keys then some .dir else none := by
  induction keys with
  | nil => rfl
  | cons key keys ih =>
      simp only [List.map_cons, node, List.mem_cons]
      by_cases hkey : key = q
      · simp [hkey]
      · simp [hkey, Ne.symm hkey, ih]

theorem mem_children {n : α} : n ∈ children t p ↔ isPresent t (p ++ [n]) = true := by
  unfold children isPresent
  rw [List.mem_dedup]
  induction t with
  | nil => simp [node]
  | cons e t ih =>
      have hkey : (if e.1.dropLast = p then e.1.getLast? else none) = some n ↔
          e.1 = p ++ [n] := by
        constructor
        · intro h
          split at h
          next hp =>
            obtain ⟨front, hfront⟩ := List.getLast?_eq_some_iff.mp h
            rw [hfront, List.dropLast_concat] at hp
            rw [hfront, hp]
          · cases h
        · intro h
          rw [h]
          simp
      rw [List.mem_filterMap]
      simp only [List.mem_cons, exists_eq_or_imp, node]
      rw [hkey]
      by_cases he : e.1 = p ++ [n]
      · simp [he]
      · rw [if_neg he, ← ih, List.mem_filterMap]
        simp [he]

theorem node_createDirAll (h : createDirAll t p = .ok t') (q : List α) :
    node t' q = if q <+: p then some .dir else node t q := by
  unfold createDirAll at h
  split at h
  · cases h
  split at h
  · cases h
  rw [← Except.ok.inj h, node_append, node_map_dir]
  by_cases hq : q <+: p
  · simp [List.mem_inits, hq]
  · simp [List.mem_inits, hq]

theorem node_createDir (h : createDir t p = .ok t') (q : List α) :
    node t' q = if p = q then some .dir else node t q := by
  unfold createDir at h
  split at h
  · cases h
  · rw [← Except.ok.inj h]
    rfl

theorem node_writeFile {content : β} (h : writeFile t p content = .ok t') (q : List α) :
    node t' q = if p = q then some (.file content) else node t q := by
  unfold writeFile at h
  split at h
  · cases h
  · rw [← Except.ok.inj h]
    rfl

/-! ### Moving -/

theorem node_map_key (key : List α → List α) {q r : List α}
    (h : ∀ e ∈ t, key e.1 = q ↔ e.1 = r) :
    node (t.map fun e => (key e.1, e.2)) q = node t r := by
  induction t with
  | nil => rfl
  | cons e t ih =>
      have htail := ih fun e' he' => h e' (List.mem_cons_of_mem e he')
      have hhead := h e List.mem_cons_self
      simp only [List.map_cons, node]
      by_cases he : e.1 = r
      · rw [if_pos he, if_pos (hhead.mpr he)]
      · rw [if_neg he, if_neg (fun hq => he (hhead.mp hq)), htail]

theorem node_map_key_none (key : List α → List α) {q : List α} (h : ∀ e ∈ t, key e.1 ≠ q) :
    node (t.map fun e => (key e.1, e.2)) q = none := by
  induction t with
  | nil => rfl
  | cons e t ih =>
      simp only [List.map_cons, node, if_neg (h e List.mem_cons_self)]
      exact ih fun e' he' => h e' (List.mem_cons_of_mem e he')

section Rename
variable {source target : List α}

theorem rename_ok (h : rename t source target = .ok t') :
    isPresent t source = true ∧ ¬ source <+: target ∧ node t target = none := by
  unfold rename at h
  split at h
  · cases h
  next hpresent =>
    split at h
    · cases h
    next hinside =>
      split at h
      · cases h
      next hfree =>
        simp only [Bool.or_eq_true, Bool.not_eq_true', not_or, Bool.not_eq_false] at hpresent
        exact ⟨hpresent.1, hinside, by simpa [isPresent] using hfree⟩

/-- The source's nodes stand at the target, nothing is left at the source, and the
rest is as before. -/
theorem node_rename (h : rename t source target = .ok t') (hapart : ¬ target <+: source)
    (q : List α) :
    node t' q =
      if target <+: q then node t (source ++ q.drop target.length)
      else if source <+: q then none else node t q := by
  have hok := rename_ok h
  unfold rename at h
  split at h
  · cases h
  split at h
  · cases h
  split at h
  · cases h
  rw [← Except.ok.inj h]
  have hunder : ∀ key : List α, target <+: target ++ key.drop source.length :=
    fun key => List.prefix_append target _
  have hkeep : ∀ e ∈ removeDirAll t target, ¬ target <+: e.1 := by
    intro e he
    simpa using (List.mem_filter.mp he).2
  by_cases htarget : target <+: q
  · rw [if_pos htarget]
    have hsource : ¬ target <+: source ++ q.drop target.length := by
      intro hstart
      cases List.prefix_or_prefix_of_prefix hstart (List.prefix_append source _) with
      | inl hbelow => exact hapart hbelow
      | inr habove => exact hok.2.1 habove
    rw [node_map_key (movedKey source target) (r := source ++ q.drop target.length),
      node_removeDirAll, if_neg hsource]
    intro e he
    unfold movedKey
    by_cases hmoved : source <+: e.1
    · rw [if_pos hmoved]
      constructor
      · intro heq
        rw [← heq, List.drop_left, List.prefix_iff_eq_append.mp hmoved]
      · intro heq
        rw [heq, List.drop_left, List.prefix_iff_eq_append.mp htarget]
    · rw [if_neg hmoved]
      constructor
      · intro heq
        exact absurd (heq ▸ htarget) (hkeep e he)
      · intro heq
        exact absurd (heq ▸ List.prefix_append source _) hmoved
  · rw [if_neg htarget]
    by_cases hsource : source <+: q
    · rw [if_pos hsource]
      apply node_map_key_none (movedKey source target)
      intro e _ heq
      unfold movedKey at heq
      by_cases hmoved : source <+: e.1
      · rw [if_pos hmoved] at heq
        exact htarget (heq ▸ hunder e.1)
      · rw [if_neg hmoved] at heq
        exact hmoved (heq ▸ hsource)
    · rw [if_neg hsource, node_map_key (movedKey source target) (r := q), node_removeDirAll,
        if_neg htarget]
      intro e _
      unfold movedKey
      by_cases hmoved : source <+: e.1
      · rw [if_pos hmoved]
        constructor
        · intro heq
          exact absurd (heq ▸ hunder e.1) htarget
        · intro heq
          exact absurd (heq ▸ hmoved) hsource
      · rw [if_neg hmoved]

theorem node_rename_below (h : rename t source target = .ok t') (hapart : ¬ target <+: source)
    (rest : List α) : node t' (target ++ rest) = node t (source ++ rest) := by
  rw [node_rename h hapart, if_pos (List.prefix_append target rest), List.drop_left]

theorem node_rename_gone (h : rename t source target = .ok t') (hapart : ¬ target <+: source)
    (htarget : ¬ target <+: q) (hsource : source <+: q) : node t' q = none := by
  rw [node_rename h hapart, if_neg htarget, if_pos hsource]

theorem node_rename_other (h : rename t source target = .ok t') (hapart : ¬ target <+: source)
    (htarget : ¬ target <+: q) (hsource : ¬ source <+: q) : node t' q = node t q := by
  rw [node_rename h hapart, if_neg htarget, if_neg hsource]

end Rename

/-! ### A directory seen as a tree of its own -/

structure Mirrors (root : List α) (t s : Tree α β) : Prop where
  below : ∀ rest, node t (root ++ rest) = node s rest
  above : ∀ q, q <+: root → node t q = some .dir

/-- Nothing outside the directory has changed. -/
def SameOutside (root : List α) (t t' : Tree α β) : Prop :=
  ∀ q, ¬ root <+: q → node t' q = node t q

theorem SameOutside.trans {root : List α} {t'' : Tree α β} (h : SameOutside root t t')
    (h' : SameOutside root t' t'') : SameOutside root t t'' := by
  intro q hq
  exact (h' q hq).trans (h q hq)

section Mirror
variable {root : List α} {s : Tree α β} {rest : List α}

theorem Mirrors.isFile (h : Mirrors root t s) (rest : List α) :
    isFile t (root ++ rest) = FileTree.isFile s rest := by
  unfold FileTree.isFile
  rw [h.below rest]

theorem Mirrors.isDir (h : Mirrors root t s) (rest : List α) :
    isDir t (root ++ rest) = FileTree.isDir s rest := by
  unfold FileTree.isDir
  rw [h.below rest]

theorem Mirrors.createDirAll (h : Mirrors root t s)
    (hop : createDirAll t (root ++ rest) = .ok t') :
    ∃ s', createDirAll s rest = .ok s' ∧ Mirrors root t' s' ∧ SameOutside root t t' := by
  have hnode := node_createDirAll hop
  have hfiles : ∀ q, q <+: root ++ rest → FileTree.isFile t q = false := by
    intro q hq
    unfold FileTree.createDirAll at hop
    split at hop
    · cases hop
    split at hop
    · cases hop
    next hany =>
      simpa using fun hfile => hany (List.any_eq_true.mpr ⟨q, (List.mem_inits q _).mpr hq, hfile⟩)
  have hok : ∃ s', FileTree.createDirAll s rest = .ok s' := by
    have hbelow : ∀ q, q <+: rest → FileTree.isFile s q = false := by
      intro q hq
      rw [← h.isFile q]
      exact hfiles _ ((List.prefix_append_right_inj root).mpr hq)
    unfold FileTree.createDirAll
    rw [if_neg (by simp [hbelow rest (List.prefix_refl rest)]), if_neg]
    · exact ⟨_, rfl⟩
    · intro hany
      obtain ⟨q, hq, hfile⟩ := List.any_eq_true.mp hany
      rw [hbelow q ((List.mem_inits q rest).mp hq)] at hfile
      cases hfile
  obtain ⟨s', hs'⟩ := hok
  have habove : ∀ q, q <+: root → node t' q = some .dir := by
    intro q hq
    rw [hnode, if_pos (hq.trans (List.prefix_append root rest))]
  refine ⟨s', hs', ⟨?_, habove⟩, ?_⟩
  · intro r
    rw [hnode, node_createDirAll hs', h.below r]
    simp only [List.prefix_append_right_inj]
  · intro q hq
    rw [hnode]
    split
    next hstart =>
      cases List.prefix_or_prefix_of_prefix hstart (List.prefix_append root rest) with
      | inl hup => exact (h.above q hup).symm
      | inr hdown => exact absurd hdown hq
    · rfl

/-- Putting one node at or below the directory, when the tree alone gets it too. -/
theorem Mirrors.put {s' : Tree α β} {value : Node β} (h : Mirrors root t s)
    (ht : ∀ q, node t' q = if root ++ rest = q then some value else node t q)
    (hs : ∀ q, node s' q = if rest = q then some value else node s q)
    (hroot : rest = [] → value = .dir) :
    Mirrors root t' s' ∧ SameOutside root t t' := by
  have hbelow : ∀ r, node t' (root ++ r) = node s' r := by
    intro r
    rw [ht, hs, h.below r]
    simp only [List.append_cancel_left_eq]
  refine ⟨⟨hbelow, ?_⟩, ?_⟩
  · intro q hq
    rw [ht]
    split
    next heq =>
      have hlength := hq.length_le
      rw [← heq, List.length_append] at hlength
      have hnil : rest = [] := List.length_eq_zero_iff.mp (by omega)
      rw [hroot hnil]
    · exact h.above q hq
  · intro q hq
    rw [ht, if_neg]
    intro heq
    exact hq (heq ▸ List.prefix_append root rest)

theorem Mirrors.createDir (h : Mirrors root t s)
    (hop : createDir t (root ++ rest) = .ok t') :
    ∃ s', createDir s rest = .ok s' ∧ Mirrors root t' s' ∧ SameOutside root t t' := by
  have hnode := node_createDir hop
  have hok : FileTree.createDir s rest = .ok ((rest, .dir) :: s) := by
    unfold FileTree.createDir at hop ⊢
    rw [h.isFile rest] at hop
    split at hop
    · cases hop
    next hfile => rw [if_neg hfile]
  exact ⟨_, hok, h.put hnode (node_createDir hok) fun _ => rfl⟩

theorem Mirrors.writeFile {content : β} (h : Mirrors root t s)
    (hop : writeFile t (root ++ rest) content = .ok t') :
    ∃ s', writeFile s rest content = .ok s' ∧ Mirrors root t' s' ∧ SameOutside root t t' := by
  have hnode := node_writeFile hop
  unfold FileTree.writeFile at hop
  rw [h.isDir rest] at hop
  split at hop
  · cases hop
  next hdir =>
    have hok : FileTree.writeFile s rest content = .ok ((rest, .file content) :: s) := by
      rw [FileTree.writeFile, if_neg hdir]
    refine ⟨_, hok, h.put hnode (node_writeFile hok) ?_⟩
    -- the directory itself is no place for a file
    intro hnil
    have hroot := h.above root (List.prefix_refl root)
    have hself := h.below []
    rw [List.append_nil, hroot] at hself
    rw [hnil] at hdir
    exact absurd (by rw [FileTree.isDir, ← hself]) hdir

/-- A directory and its mirror list the same names. -/
theorem Mirrors.children (h : Mirrors root t s) (rest : List α) :
    (children t (root ++ rest)).Perm (FileTree.children s rest) := by
  have hmem : ∀ n, n ∈ FileTree.children t (root ++ rest) ↔ n ∈ FileTree.children s rest := by
    intro n
    rw [mem_children, mem_children]
    unfold isPresent
    rw [List.append_assoc, h.below]
  exact (List.perm_ext_iff_of_nodup (List.nodup_dedup _) (List.nodup_dedup _)).mpr hmem

end Mirror
end Lookup
end FileTree
