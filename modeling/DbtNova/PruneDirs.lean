import DbtNova.Error
import Mathlib.Algebra.BigOperators.Group.List.Basic
import Mathlib.Algebra.Order.Ring.Nat
import Mathlib.Data.List.Sort
import Mathlib.Data.String.Basic
import Mathlib.Data.Int.Order.Basic

/-!
# Pruning directories

`prune_dirs` of `utils/storage.rs` on what it finds in one directory. The oldest candidates are
removed until the others are within the limits. The sizes are added up without a check for
overflow, as a release build does it, so that the running total can fall short of what is left.
-/
namespace DbtNova.PruneDirs

def usizeMax : ℕ := 2 ^ 64 - 1

section Model
variable (P : Type)

/-- What the scan reads of an entry. The metadata are the times of the last change and of the
creation where the file system has them. -/
structure Entry where
  path : P
  name : Option String
  isDir : Bool
  lockOpens : Bool
  lockTaken : Bool
  metadata : Except String (Option ℤ × Option ℤ)
  size : ℕ

/-- A directory to be pruned. Its entries are listed once each, and in a vector. -/
structure Root where
  present : Bool
  readError : Option String
  entries : List (Except String (Entry P))
  entries_present : present = false → entries = []
  length_le : entries.length ≤ usizeMax
  paths_nodup : ((entries.filterMap Except.toOption).map Entry.path).Nodup

structure Dir where
  modified : ℤ
  size : ℕ
  path : P

end Model

structure Limits where
  maxKeep : ℕ
  minKeep : ℕ
  maxBytes : ℕ
  deriving DecidableEq, Repr

section Prune
variable {P : Type}

def dirInUse (entry : Entry P) : Bool := entry.lockOpens && entry.lockTaken

def modifiedTime (times : Option ℤ × Option ℤ) : ℤ := (times.1.or times.2).getD 0

def scanListed (excludeNames : List String) (entry : Entry P) : Result (Option (Dir P)) :=
  if entry.isDir = false then .ok none
  else if excludeNames.contains (entry.name.getD "") then .ok none
  else if dirInUse entry then .ok none
  else
    match entry.metadata with
    | .error e => .error (.serverError ("Storage metadata failed: " ++ e))
    | .ok times => .ok (some ⟨modifiedTime times, entry.size, entry.path⟩)

def scanEntry (excludeNames : List String) :
    Except String (Entry P) → Result (Option (Dir P))
  | .error e => .error (.serverError ("Storage scan failed: " ++ e))
  | .ok entry => scanListed excludeNames entry

def scanEntries (excludeNames : List String) :
    List (Except String (Entry P)) → Result (List (Dir P))
  | [] => .ok []
  | entry :: entries => do
      let found ← scanEntry excludeNames entry
      let dirs ← scanEntries excludeNames entries
      return found.toList ++ dirs

def scanRoot (excludeNames : List String) (root : Root P) : Result (List (Dir P)) :=
  match root.readError with
  | some e => .error (.serverError ("Storage scan failed: " ++ e))
  | none => scanEntries excludeNames root.entries

def mustPrune (keepLimit minKeep maxBytes count totalBytes : ℕ) : Bool :=
  keepLimit < count || (0 < maxBytes && maxBytes < totalBytes && minKeep < count)

/-- The directories that are removed, the last of them with the error of a failed removal. -/
def pruneLoop (removal : P → Option String) (keepLimit minKeep maxBytes : ℕ) :
    ℕ → List (Dir P) → List (Dir P) × Result Unit
  | _, [] => ([], .ok ())
  | totalBytes, dir :: dirs =>
      if mustPrune keepLimit minKeep maxBytes (dirs.length + 1) totalBytes then
        match removal dir.path with
        | some e => ([dir], .error (.serverError ("Storage prune failed: " ++ e)))
        | none =>
            let rest := pruneLoop removal keepLimit minKeep maxBytes (totalBytes - dir.size) dirs
            (dir :: rest.1, rest.2)
      else ([], .ok ())

def bytes (dirs : List (Dir P)) : ℕ := (dirs.map Dir.size).sum

/-- No vector is longer than the limit that stands for none. -/
def keepLimit (limits : Limits) : ℕ := if limits.maxKeep = 0 then usizeMax else limits.maxKeep

section Order
variable [LinearOrder P]

/-- By the time of the last change, then by the path. -/
def Older (a b : Dir P) : Prop :=
  a.modified < b.modified ∨ a.modified = b.modified ∧ a.path ≤ b.path

instance : DecidableRel (Older (P := P)) := fun _ _ => inferInstanceAs (Decidable (_ ∨ _))

def pruneDirs (limits : Limits) (excludeNames : List String) (removal : P → Option String)
    (root : Root P) : List (Dir P) × Result Unit :=
  if (limits.maxKeep = 0 ∧ limits.maxBytes = 0) ∨ root.present = false then ([], .ok ())
  else
    match scanRoot excludeNames root with
    | .error e => ([], .error e)
    | .ok dirs =>
        if dirs.isEmpty then ([], .ok ())
        else
          let totalBytes := bytes dirs % 2 ^ 64
          let minKeep := min limits.minKeep (keepLimit limits)
          pruneLoop removal (keepLimit limits) minKeep limits.maxBytes totalBytes
            (dirs.insertionSort Older)

end Order

/-! ## The loop -/

/-- What a run of the loop has removed, by the guard before each removal and behind the last. -/
structure Pruned (removal : P → Option String) (keepLimit minKeep maxBytes total : ℕ)
    (dirs : List (Dir P)) (outcome : List (Dir P) × Result Unit) : Prop where
  oldest : outcome.1 = dirs.take outcome.1.length
  guarded : ∀ j < outcome.1.length, mustPrune keepLimit minKeep maxBytes (dirs.drop j).length
    (total - bytes (dirs.take j)) = true
  ended : outcome.2 = .ok () → (∀ dir ∈ outcome.1, removal dir.path = none) ∧
    mustPrune keepLimit minKeep maxBytes (dirs.drop outcome.1.length).length
      (total - bytes (dirs.take outcome.1.length)) = false
  failed : outcome.2 ≠ .ok () → ∃ dir ∈ outcome.1, removal dir.path ≠ none

theorem bytes_cons (dir : Dir P) (dirs : List (Dir P)) :
    bytes (dir :: dirs) = dir.size + bytes dirs := rfl

theorem mustPrune_zero (keepLimit minKeep maxBytes totalBytes : ℕ) :
    mustPrune keepLimit minKeep maxBytes 0 totalBytes = false := by
  unfold mustPrune
  rw [decide_eq_false (Nat.not_lt_zero keepLimit), decide_eq_false (Nat.not_lt_zero minKeep),
    Bool.and_false, Bool.or_false]

theorem pruneLoop_pruned (removal : P → Option String) (keepLimit minKeep maxBytes total : ℕ)
    (dirs : List (Dir P)) : Pruned removal keepLimit minKeep maxBytes total dirs
      (pruneLoop removal keepLimit minKeep maxBytes total dirs) := by
  induction dirs generalizing total with
  | nil =>
      exact ⟨rfl, nofun, fun _ => ⟨nofun, mustPrune_zero ..⟩, fun h => absurd rfl h⟩
  | cons dir dirs ih =>
      rw [pruneLoop]
      cases hguard : mustPrune keepLimit minKeep maxBytes (dirs.length + 1) total with
      | false => exact ⟨rfl, nofun, fun _ => ⟨nofun, hguard⟩, fun h => absurd rfl h⟩
      | true =>
          rw [if_pos rfl]
          have hfirst : mustPrune keepLimit minKeep maxBytes ((dir :: dirs).drop 0).length
              (total - bytes ((dir :: dirs).take 0)) = true := hguard
          cases hremoval : removal dir.path with
          | some e =>
              refine ⟨rfl, fun j hj => ?_, nofun, fun _ => ⟨dir, List.mem_singleton_self dir, ?_⟩⟩
              · rw [Nat.lt_one_iff.mp hj]
                exact hfirst
              · rw [hremoval]
                exact Option.some_ne_none e
          | none =>
              have hrest := ih (total - dir.size)
              refine ⟨congrArg (dir :: ·) hrest.oldest, fun j hj => ?_, fun hok => ?_,
                fun hfail => ?_⟩
              · cases j with
                | zero => exact hfirst
                | succ j =>
                    have hlater := hrest.guarded j (Nat.lt_of_succ_lt_succ hj)
                    rw [Nat.sub_sub] at hlater
                    exact hlater
              · obtain ⟨hall, hend⟩ := hrest.ended hok
                rw [Nat.sub_sub] at hend
                refine ⟨fun d hd => ?_, hend⟩
                cases List.mem_cons.mp hd with
                | inl heq => rw [heq, hremoval]
                | inr hmem => exact hall d hmem
              · obtain ⟨d, hd, hne⟩ := hrest.failed hfail
                exact ⟨d, List.mem_cons_of_mem _ hd, hne⟩

/-! ## The scan -/

/-- A directory that is not excluded and not in use. -/
def candidate (excludeNames : List String) (entry : Entry P) : Bool :=
  entry.isDir && !excludeNames.contains (entry.name.getD "") && !dirInUse entry

def Root.listed (root : Root P) : List (Entry P) := root.entries.filterMap Except.toOption

def toDir (entry : Entry P) : Dir P :=
  ⟨(entry.metadata.toOption.map modifiedTime).getD 0, entry.size, entry.path⟩

def candidates (excludeNames : List String) (root : Root P) : List (Dir P) :=
  (root.listed.filter (candidate excludeNames)).map toDir

/-- The directory and all that the scan needs of its entries can be read. -/
def Readable (excludeNames : List String) (root : Root P) : Prop :=
  root.readError = none ∧ ∀ entry ∈ root.entries, ∃ listed, entry = .ok listed ∧
    (candidate excludeNames listed = true → ∃ times, listed.metadata = .ok times)

variable {excludeNames : List String}

theorem scanListed_ok (entry : Entry P) {found : Option (Dir P)} :
    scanListed excludeNames entry = .ok found ↔
      (candidate excludeNames entry = true → ∃ times, entry.metadata = .ok times) ∧
      found = if candidate excludeNames entry then some (toDir entry) else none := by
  have hskip : ∀ skipped : Option (Dir P), (.ok none : Result (Option (Dir P))) = .ok skipped ↔
      (false = true → ∃ times, entry.metadata = .ok times) ∧
        skipped = if false = true then some (toDir entry) else none :=
    fun skipped => ⟨fun h => ⟨nofun, (Except.ok.inj h).symm⟩, fun h => congrArg _ h.2.symm⟩
  unfold scanListed candidate
  cases entry.isDir with
  | false => exact hskip found
  | true =>
      cases excludeNames.contains (entry.name.getD "") with
      | true => exact hskip found
      | false =>
          cases dirInUse entry with
          | true => exact hskip found
          | false =>
              unfold toDir
              cases entry.metadata with
              | error e =>
                  refine ⟨nofun, fun h => ?_⟩
                  obtain ⟨times, htimes⟩ := h.1 rfl
                  cases htimes
              | ok times =>
                  exact ⟨fun h => ⟨fun _ => ⟨times, rfl⟩, (Except.ok.inj h).symm⟩,
                    fun h => congrArg Except.ok h.2.symm⟩

theorem scanEntries_ok (entries : List (Except String (Entry P))) {dirs : List (Dir P)} :
    scanEntries excludeNames entries = .ok dirs ↔
      (∀ entry ∈ entries, ∃ listed, entry = .ok listed ∧
        (candidate excludeNames listed = true → ∃ times, listed.metadata = .ok times)) ∧
      dirs = ((entries.filterMap Except.toOption).filter (candidate excludeNames)).map toDir := by
  induction entries generalizing dirs with
  | nil =>
      rw [scanEntries]
      exact ⟨fun h => ⟨nofun, (Except.ok.inj h).symm⟩, fun h => congrArg _ h.2.symm⟩
  | cons entry entries ih =>
      rw [scanEntries, bind_eq_ok, List.forall_mem_cons]
      cases entry with
      | error e =>
          constructor
          · rintro ⟨found, hfound, _⟩
            cases hfound
          · rintro ⟨⟨⟨listed, hlisted, _⟩, _⟩, _⟩
            cases hlisted
      | ok listed =>
          have hhead : (∃ other, (.ok listed : Except String (Entry P)) = .ok other ∧
              (candidate excludeNames other = true → ∃ times, other.metadata = .ok times)) ↔
              (candidate excludeNames listed = true → ∃ times, listed.metadata = .ok times) :=
            ⟨fun ⟨other, heq, h⟩ => Except.ok.inj heq ▸ h, fun h => ⟨listed, rfl, h⟩⟩
          have hdirs : (((.ok listed :: entries).filterMap Except.toOption).filter
              (candidate excludeNames)).map toDir =
              (if candidate excludeNames listed then some (toDir listed) else none).toList ++
                ((entries.filterMap Except.toOption).filter (candidate excludeNames)).map
                  toDir := by
            rw [List.filterMap_cons_some (f := Except.toOption) (b := listed) rfl,
              List.filter_cons]
            cases candidate excludeNames listed <;> rfl
          rw [hhead, hdirs]
          constructor
          · rintro ⟨found, hfound, hrest⟩
            obtain ⟨others, hothers, hsum⟩ := bind_eq_ok.mp hrest
            obtain ⟨hmetadata, rfl⟩ := (scanListed_ok listed).mp hfound
            obtain ⟨hall, rfl⟩ := ih.mp hothers
            exact ⟨⟨hmetadata, hall⟩, (Except.ok.inj hsum).symm⟩
          · rintro ⟨⟨hmetadata, hall⟩, rfl⟩
            exact ⟨_, (scanListed_ok listed).mpr ⟨hmetadata, rfl⟩,
              bind_eq_ok.mpr ⟨_, ih.mpr ⟨hall, rfl⟩, rfl⟩⟩

/-- The scan finds the candidates, in the order they are listed in. -/
theorem scanRoot_ok (root : Root P) {dirs : List (Dir P)} :
    scanRoot excludeNames root = .ok dirs ↔
      Readable excludeNames root ∧ dirs = candidates excludeNames root := by
  unfold scanRoot Readable
  cases root.readError with
  | some e => exact ⟨nofun, fun h => nomatch h.1.1⟩
  | none =>
      rw [scanEntries_ok, eq_self, true_and]
      rfl

/-! ## The limits -/

/-- The number of directories that the limit on bytes leaves in any case. -/
def keepFloor (limits : Limits) : ℕ :=
  if limits.maxKeep = 0 then limits.minKeep else min limits.minKeep limits.maxKeep

/-- Whether the directories that are left are within the limits, where zero stands for none. -/
def Within (limits : Limits) (left : List (Dir P)) : Prop :=
  (0 < limits.maxKeep → left.length ≤ limits.maxKeep) ∧
    (0 < limits.maxBytes →
      bytes left ≤ limits.maxBytes ∨ left.length ≤ keepFloor limits)

/-- The running total is within the limit on bytes when `j` directories are removed, and what is
left is not. -/
structure Undercounts (limits : Limits) (ordered : List (Dir P)) (j : ℕ) : Prop where
  count : 0 < limits.maxKeep → (ordered.drop j).length ≤ limits.maxKeep
  above_floor : keepFloor limits < (ordered.drop j).length
  limited : 0 < limits.maxBytes
  left : limits.maxBytes < bytes (ordered.drop j)
  total : bytes ordered % 2 ^ 64 - bytes (ordered.take j) ≤ limits.maxBytes

section Order
variable [LinearOrder P]

def ordered (excludeNames : List String) (root : Root P) : List (Dir P) :=
  (candidates excludeNames root).insertionSort Older

/-- What a pruning is for: of the candidates, no more than needed are removed, the oldest ones
first. -/
structure Prunes (limits : Limits) (excludeNames : List String) (root : Root P)
    (outcome : List (Dir P) × Result Unit) : Prop where
  spares : ∀ entry ∈ root.listed,
    excludeNames.contains (entry.name.getD "") = true ∨ dirInUse entry = true →
      entry.path ∉ outcome.1.map Dir.path
  perm : (ordered excludeNames root).Perm (candidates excludeNames root)
  sorted : (ordered excludeNames root).Pairwise Older
  oldest : outcome.1 <+: ordered excludeNames root
  within : outcome.2 = .ok () →
    Within limits ((ordered excludeNames root).drop outcome.1.length)
  minimal : outcome.2 = .ok () → ∀ j < outcome.1.length,
    ¬ Within limits ((ordered excludeNames root).drop j)

end Order

/-! ### Counts and floors -/

section Guard
variable {limits : Limits} {dirs : List (Dir P)} {j k : ℕ}

theorem bytes_append (first second : List (Dir P)) :
    bytes (first ++ second) = bytes first + bytes second := by
  unfold bytes
  rw [List.map_append, List.sum_append]

theorem bytes_take_drop (dirs : List (Dir P)) (j : ℕ) :
    bytes (dirs.take j) + bytes (dirs.drop j) = bytes dirs := by
  rw [← bytes_append, List.take_append_drop]

theorem bytes_drop_le (h : j ≤ k) : bytes (dirs.drop k) ≤ bytes (dirs.drop j) := by
  have hsplit := bytes_take_drop (dirs.drop j) (k - j)
  rw [List.drop_drop, Nat.add_sub_cancel' h] at hsplit
  omega

theorem keepLimit_lt_iff (hlength : k ≤ usizeMax) :
    keepLimit limits < k ↔ 0 < limits.maxKeep ∧ limits.maxKeep < k := by
  unfold keepLimit
  split <;> omega

theorem minKeep_lt_iff (hlength : k ≤ usizeMax) :
    min limits.minKeep (keepLimit limits) < k ↔ keepFloor limits < k := by
  unfold keepLimit keepFloor
  split <;> omega

/-- The guard with the running total as it is for a total of `total` bytes. -/
theorem guard_iff (total : ℕ) (hlength : dirs.length ≤ usizeMax) :
    mustPrune (keepLimit limits) (min limits.minKeep (keepLimit limits)) limits.maxBytes
        (dirs.drop j).length (total - bytes (dirs.take j)) = true ↔
      (0 < limits.maxKeep ∧ limits.maxKeep < (dirs.drop j).length) ∨
      (0 < limits.maxBytes ∧ limits.maxBytes < total - bytes (dirs.take j) ∧
        keepFloor limits < (dirs.drop j).length) := by
  have hle : (dirs.drop j).length ≤ usizeMax :=
    (List.drop_suffix j dirs).length_le.trans hlength
  unfold mustPrune
  rw [Bool.or_eq_true, Bool.and_eq_true, Bool.and_eq_true, decide_eq_true_eq, decide_eq_true_eq,
    decide_eq_true_eq, decide_eq_true_eq, keepLimit_lt_iff hle, minKeep_lt_iff hle, and_assoc]

theorem total_le_left (dirs : List (Dir P)) (j : ℕ) :
    bytes dirs % 2 ^ 64 - bytes (dirs.take j) ≤ bytes (dirs.drop j) := by
  have hsplit := bytes_take_drop dirs j
  have hmod := Nat.mod_le (bytes dirs) (2 ^ 64)
  omega

/-- The guard of the loop with the running total of `j` removals. -/
def guardAt (limits : Limits) (dirs : List (Dir P)) (j : ℕ) : Bool :=
  mustPrune (keepLimit limits) (min limits.minKeep (keepLimit limits)) limits.maxBytes
    (dirs.drop j).length (bytes dirs % 2 ^ 64 - bytes (dirs.take j))

theorem not_within_of_guardAt (hlength : dirs.length ≤ usizeMax)
    (h : guardAt limits dirs j = true) : ¬ Within limits (dirs.drop j) := by
  intro hwithin
  obtain ⟨hlimited, hcount⟩ | ⟨hlimited, htotal, hfloor⟩ := (guard_iff _ hlength).mp h
  · exact absurd (hwithin.1 hlimited) (Nat.not_le.mpr hcount)
  · have hleft := total_le_left dirs j
    cases hwithin.2 hlimited with
    | inl hbytes => omega
    | inr hle => omega

theorem within_or_undercounts (hlength : dirs.length ≤ usizeMax)
    (h : guardAt limits dirs j = false) :
    Within limits (dirs.drop j) ∨ Undercounts limits dirs j := by
  have hnot := mt (guard_iff (bytes dirs % 2 ^ 64) hlength).mpr (Bool.eq_false_iff.mp h)
  rw [not_or] at hnot
  have hcount : 0 < limits.maxKeep → (dirs.drop j).length ≤ limits.maxKeep :=
    fun hlimited => Nat.not_lt.mp fun hlt => hnot.1 ⟨hlimited, hlt⟩
  by_cases hwithin : Within limits (dirs.drop j)
  · exact Or.inl hwithin
  · have hbytes : ¬ (0 < limits.maxBytes →
        bytes (dirs.drop j) ≤ limits.maxBytes ∨ (dirs.drop j).length ≤ keepFloor limits) :=
      fun hbytes => hwithin ⟨hcount, hbytes⟩
    rw [Classical.not_imp, not_or, Nat.not_le, Nat.not_le] at hbytes
    obtain ⟨hlimited, hleft, hfloor⟩ := hbytes
    exact Or.inr ⟨hcount, hfloor, hlimited, hleft,
      Nat.not_lt.mp fun hlt => hnot.2 ⟨hlimited, hlt, hfloor⟩⟩

theorem Undercounts.guardAt (h : Undercounts limits dirs j) (hlength : dirs.length ≤ usizeMax) :
    guardAt limits dirs j = false := by
  rw [Bool.eq_false_iff]
  intro hguard
  obtain ⟨hlimited, hcount⟩ | ⟨_, htotal, _⟩ := (guard_iff _ hlength).mp hguard
  · exact absurd (h.count hlimited) (Nat.not_le.mpr hcount)
  · exact absurd h.total (Nat.not_le.mpr htotal)

/-- Where too much is left, too much is left with fewer removals. -/
theorem Undercounts.not_within (h : Undercounts limits dirs j) (hle : k ≤ j) :
    ¬ Within limits (dirs.drop k) := by
  intro hwithin
  have hbytes : bytes (dirs.drop j) ≤ bytes (dirs.drop k) := bytes_drop_le hle
  have hleft := h.left
  have hfloor := h.above_floor
  rw [List.length_drop] at hfloor
  cases hwithin.2 h.limited with
  | inl hfew => omega
  | inr hcount =>
      rw [List.length_drop] at hcount
      omega

end Guard

/-! ## The pruning -/

theorem mem_candidates {excludeNames : List String} {root : Root P} {dir : Dir P}
    (h : dir ∈ candidates excludeNames root) : ∃ entry ∈ root.listed, entry.path = dir.path ∧
      candidate excludeNames entry = true := by
  obtain ⟨entry, hentry, rfl⟩ := List.mem_map.mp h
  exact ⟨entry, (List.mem_filter.mp hentry).1, rfl, (List.mem_filter.mp hentry).2⟩

/-- An entry is known by its path. -/
theorem eq_of_path {root : Root P} {a b : Entry P} (ha : a ∈ root.listed) (hb : b ∈ root.listed)
    (h : a.path = b.path) : a = b :=
  List.inj_on_of_nodup_map root.paths_nodup ha hb h

theorem length_candidates (excludeNames : List String) (root : Root P) :
    (candidates excludeNames root).length ≤ usizeMax := by
  unfold candidates Root.listed
  rw [List.length_map]
  exact (List.length_filter_le _ _).trans ((List.length_filterMap_le _ _).trans root.length_le)

theorem candidates_of_absent {excludeNames : List String} {root : Root P}
    (h : root.present = false) :
    candidates excludeNames root = [] := by
  unfold candidates Root.listed
  rw [root.entries_present h]
  rfl

section Order
variable [LinearOrder P]

instance : Std.Total (Older (P := P)) where
  total a b := by
    unfold Older
    rcases lt_trichotomy a.modified b.modified with h | h | h
    · exact Or.inl (Or.inl h)
    · exact (le_total a.path b.path).imp (fun hle => Or.inr ⟨h, hle⟩)
        fun hle => Or.inr ⟨h.symm, hle⟩
    · exact Or.inr (Or.inl h)

instance : IsTrans (Dir P) Older where
  trans a b c hab hbc := by
    rcases hab with hab | ⟨hab, hpab⟩ <;> rcases hbc with hbc | ⟨hbc, hpbc⟩
    · exact Or.inl (hab.trans hbc)
    · exact Or.inl (hbc ▸ hab)
    · exact Or.inl (hab ▸ hbc)
    · exact Or.inr ⟨hab.trans hbc, hpab.trans hpbc⟩

variable {limits : Limits} {excludeNames : List String} {removal : P → Option String}
  {root : Root P}

theorem bytes_ordered : bytes (ordered excludeNames root) = bytes (candidates excludeNames root) :=
  ((List.perm_insertionSort Older _).map Dir.size).sum_eq

/-- Without a limit, or without a directory, there is nothing to do. -/
theorem within_of_none
    (h : (limits.maxKeep = 0 ∧ limits.maxBytes = 0) ∨ candidates excludeNames root = []) :
    Within limits (ordered excludeNames root) := by
  obtain ⟨hkeep, hbytes⟩ | hnil := h
  · exact ⟨fun h => absurd hkeep h.ne', fun h => absurd hbytes h.ne'⟩
  · unfold ordered
    rw [hnil]
    exact ⟨fun _ => Nat.zero_le _, fun _ => Or.inl (Nat.zero_le _)⟩

theorem not_undercounts_of_none
    (h : (limits.maxKeep = 0 ∧ limits.maxBytes = 0) ∨ candidates excludeNames root = []) (j : ℕ) :
    ¬ Undercounts limits (ordered excludeNames root) j := by
  intro hunder
  obtain ⟨_, hbytes⟩ | hnil := h
  · exact hunder.limited.ne' hbytes
  · have habove := hunder.above_floor
    unfold ordered at habove
    rw [hnil, List.insertionSort_nil, List.drop_nil] at habove
    exact Nat.not_lt_zero _ habove

/-- A call ends without a removal, or its scan succeeds and the loop runs. -/
theorem pruneDirs_cases :
    ((pruneDirs limits excludeNames removal root).1 = [] ∧
      ((pruneDirs limits excludeNames removal root).2 = .ok () →
        Within limits (ordered excludeNames root)) ∧
      (Readable excludeNames root → ∀ j, ¬ Undercounts limits (ordered excludeNames root) j)) ∨
    Pruned removal (keepLimit limits) (min limits.minKeep (keepLimit limits)) limits.maxBytes
      (bytes (ordered excludeNames root) % 2 ^ 64) (ordered excludeNames root)
      (pruneDirs limits excludeNames removal root) ∧ Readable excludeNames root := by
  unfold pruneDirs
  by_cases hearly : (limits.maxKeep = 0 ∧ limits.maxBytes = 0) ∨ root.present = false
  · have hnone := hearly.imp_right (@candidates_of_absent P excludeNames root)
    rw [if_pos hearly]
    exact Or.inl ⟨rfl, fun _ => within_of_none hnone, fun _ => not_undercounts_of_none hnone⟩
  · rw [if_neg hearly]
    cases hscan : scanRoot excludeNames root with
    | error e =>
        refine Or.inl ⟨rfl, nofun, fun hreadable => ?_⟩
        rw [(scanRoot_ok root).mpr ⟨hreadable, rfl⟩] at hscan
        cases hscan
    | ok dirs =>
        obtain ⟨hreadable, rfl⟩ := (scanRoot_ok root).mp hscan
        refine Or.inr ⟨?_, hreadable⟩
        rw [bytes_ordered]
        dsimp only
        split
        · rename_i hempty
          have hnil : ordered excludeNames root = [] := by
            unfold ordered
            rw [List.isEmpty_iff.mp hempty, List.insertionSort_nil]
          rw [hnil]
          exact pruneLoop_pruned removal _ _ _ _ []
        · exact pruneLoop_pruned removal _ _ _ _ _

theorem length_ordered : (ordered excludeNames root).length ≤ usizeMax := by
  unfold ordered
  rw [List.length_insertionSort]
  exact length_candidates excludeNames root

/-- Removed directories are candidates, and no path is listed twice. -/
theorem spares_of_oldest {removed : List (Dir P)} (h : removed <+: ordered excludeNames root) :
    ∀ entry ∈ root.listed,
      excludeNames.contains (entry.name.getD "") = true ∨ dirInUse entry = true →
        entry.path ∉ removed.map Dir.path := by
  intro entry hentry hkept hpath
  obtain ⟨dir, hdir, hsame⟩ := List.mem_map.mp hpath
  have hcandidate : dir ∈ candidates excludeNames root :=
    (List.perm_insertionSort Older _).mem_iff.mp (h.subset hdir)
  obtain ⟨other, hother, heq, htrue⟩ := mem_candidates hcandidate
  rw [eq_of_path hother hentry (heq.trans hsame)] at htrue
  unfold candidate at htrue
  rw [Bool.and_eq_true, Bool.and_eq_true, Bool.not_eq_true', Bool.not_eq_true'] at htrue
  obtain hname | huse := hkept
  · rw [htrue.1.2] at hname
    cases hname
  · rw [htrue.2] at huse
    cases huse

/-- A pruning removes as much as it should exactly when no running total falls short: no number
of candidates that can be removed leaves more bytes than the limit, and more directories than the
floor, while the total modulo `2 ^ 64` less what is removed is within the limit. -/
theorem prunes_iff (limits : Limits) (excludeNames : List String) (removal : P → Option String)
    (root : Root P) :
    Prunes limits excludeNames root (pruneDirs limits excludeNames removal root) ↔
      (Readable excludeNames root → ∀ j, Undercounts limits (ordered excludeNames root) j →
        ∃ dir ∈ (ordered excludeNames root).take j, removal dir.path ≠ none) := by
  have hsorted := List.pairwise_insertionSort Older (candidates excludeNames root)
  have hperm := List.perm_insertionSort Older (candidates excludeNames root)
  obtain ⟨hnil, hwithin, hnone⟩ | ⟨hpruned, hreadable⟩ :=
    @pruneDirs_cases P _ limits excludeNames removal root
  · refine iff_of_true ⟨?_, hperm, hsorted, ?_, ?_, ?_⟩ fun h j hunder => absurd hunder (hnone h j)
    · rw [hnil]
      exact fun _ _ _ => List.not_mem_nil
    · rw [hnil]
      exact List.nil_prefix
    · rw [hnil]
      exact hwithin
    · rw [hnil]
      exact fun _ j hj => absurd hj (Nat.not_lt_zero j)
  · have holdest : (pruneDirs limits excludeNames removal root).1 <+:
        ordered excludeNames root := hpruned.oldest ▸ List.take_prefix _ _
    constructor
    · -- the loop stops at the latest where the total falls short
      intro h _ j hunder
      by_contra hall
      push Not at hall
      have hle : (pruneDirs limits excludeNames removal root).1.length ≤ j := by
        by_contra hlt
        have hguard := hpruned.guarded j (Nat.not_le.mp hlt)
        exact Bool.false_ne_true ((hunder.guardAt length_ordered).symm.trans hguard)
      have hok : (pruneDirs limits excludeNames removal root).2 = .ok () := by
        by_contra hfail
        obtain ⟨dir, hdir, hremoval⟩ := hpruned.failed hfail
        rw [hpruned.oldest] at hdir
        exact hremoval (hall dir ((List.take_prefix_take_left hle).subset hdir))
      exact hunder.not_within hle (h.within hok)
    · intro h
      refine ⟨spares_of_oldest holdest, hperm, hsorted, holdest, fun hok => ?_, fun _ j hj => ?_⟩
      · obtain ⟨hremoved, hstop⟩ := hpruned.ended hok
        refine (within_or_undercounts length_ordered hstop).resolve_right fun hunder => ?_
        obtain ⟨dir, hdir, hremoval⟩ := h hreadable _ hunder
        rw [← hpruned.oldest] at hdir
        exact hremoval (hremoved dir hdir)
      · exact not_within_of_guardAt length_ordered (hpruned.guarded j hj)

/-- Nothing goes wrong with sizes that can be added up. -/
theorem prunes_of_bytes_lt (limits : Limits) (removal : P → Option String)
    (h : bytes (candidates excludeNames root) < 2 ^ 64) :
    Prunes limits excludeNames root (pruneDirs limits excludeNames removal root) := by
  refine (prunes_iff limits excludeNames removal root).mpr fun _ j hunder => ?_
  have htotal := hunder.total
  have hleft := hunder.left
  have hsplit := bytes_take_drop (ordered excludeNames root) j
  rw [bytes_ordered] at htotal hsplit
  rw [Nat.mod_eq_of_lt h] at htotal
  omega

end Order

end Prune

def sparseDir (path : String) : Entry String where
  path := path
  name := some path
  isDir := true
  lockOpens := false
  lockTaken := false
  metadata := .ok (some 0, none)
  size := 2 ^ 63

/-- Two directories with sparse files of `2 ^ 63` bytes each. -/
def sparseRoot : Root String where
  present := true
  readError := none
  entries := [.ok (sparseDir "a"), .ok (sparseDir "b")]
  entries_present := nofun
  length_le := by decide
  paths_nodup := by decide

/-- The sizes add up to nothing, and nothing is removed. -/
theorem sparseRoot_kept :
    pruneDirs ⟨0, 0, 1⟩ [] (fun _ => none) sparseRoot = ([], .ok ()) ∧
      ¬ Prunes ⟨0, 0, 1⟩ [] sparseRoot
        (pruneDirs ⟨0, 0, 1⟩ [] (fun _ => none) sparseRoot) := by
  have hrun : pruneDirs ⟨0, 0, 1⟩ [] (fun _ => none) sparseRoot = ([], .ok ()) := rfl
  refine ⟨hrun, fun h => ?_⟩
  have hbytes : bytes (ordered [] sparseRoot) = 2 ^ 64 := bytes_ordered
  have hlength : (ordered [] sparseRoot).length = 2 := List.length_insertionSort ..
  rw [hrun] at h
  cases (h.within rfl).2 Nat.one_pos with
  | inl hle =>
      rw [List.length_nil, List.drop_zero, hbytes] at hle
      exact absurd hle (by decide)
  | inr hle =>
      rw [List.length_nil, List.drop_zero, hlength] at hle
      exact absurd hle (by decide)

end DbtNova.PruneDirs
