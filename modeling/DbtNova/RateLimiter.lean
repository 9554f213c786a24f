import DbtNova.Text
import Mathlib.Algebra.Order.Ring.Nat
import Mathlib.Logic.Function.Basic
import Mathlib.Tactic.Common

/-!
# Rate limits per tool

`ToolRateLimiter::allow` counts the calls of a tool in a window that starts anew with the first
call after its end. A call reads the clock when it makes an entry for its tool and once more
after that. The state is locked for the whole call, so calls come one after the other.
-/
namespace DbtNova.RateLimiter

structure ToolRateLimiter where
  window : ℕ
  limits : String → Option ℕ
  defaultLimit : Option ℕ

structure RateState where
  windowStart : ℕ
  count : ℕ
  deriving DecidableEq, Repr

/-- `entered` is the reading for a new entry, `now` the one after it. -/
structure Call where
  tool : String
  entered : ℕ
  now : ℕ
  deriving DecidableEq, Repr

/-- A call with its answer; `reset` when it started a window. -/
structure Entry where
  call : Call
  granted : Bool
  reset : Bool
  deriving DecidableEq, Repr

/-! ## One tool -/

def startsWindow (window : ℕ) (state : Option RateState) (c : Call) : Bool :=
  state.all fun s => window ≤ c.now - s.windowStart

/-- The entry of the tool behind the check of its window. -/
def openWindow (window : ℕ) (state : Option RateState) (c : Call) : RateState :=
  let entry := state.getD ⟨c.entered, 0⟩
  if window ≤ c.now - entry.windowStart then ⟨c.now, 0⟩ else entry

def takeCall (window limit : ℕ) (state : Option RateState) (c : Call) : Bool × RateState :=
  let entry := openWindow window state c
  if limit ≤ entry.count then (false, entry) else (true, { entry with count := entry.count + 1 })

/-- The answers to the calls of one tool. -/
def toolLog (window limit : ℕ) : Option RateState → List Call → List Entry
  | _, [] => []
  | state, c :: calls =>
      let result := takeCall window limit state c
      ⟨c, result.1, startsWindow window state c⟩ :: toolLog window limit (some result.2) calls

/-- The times of the calls that were let through. -/
def grants (entries : List Entry) : List ℕ :=
  (entries.filter Entry.granted).map fun entry => entry.call.now

/-- The clock does not go back. -/
def Clocked (calls : List Call) : Prop :=
  calls.Pairwise (fun a b => a.now ≤ b.entered) ∧ ∀ c ∈ calls, c.entered ≤ c.now

section Tool
variable {window limit : ℕ}

theorem takeCall_cases (state : Option RateState) (c : Call) :
    ((openWindow window state c).count < limit ∧ takeCall window limit state c =
      (true, { openWindow window state c with count := (openWindow window state c).count + 1 })) ∨
    (limit ≤ (openWindow window state c).count ∧
      takeCall window limit state c = (false, openWindow window state c)) := by
  unfold takeCall
  by_cases h : limit ≤ (openWindow window state c).count
  · exact Or.inr ⟨h, if_pos h⟩
  · exact Or.inl ⟨Nat.not_le.mp h, if_neg h⟩

theorem grants_cons (entry : Entry) (entries : List Entry) :
    grants (entry :: entries) =
      (if entry.granted then [entry.call.now] else []) ++ grants entries := by
  unfold grants
  cases h : entry.granted with
  | true => rw [List.filter_cons_of_pos h, List.map_cons, if_pos rfl, List.singleton_append]
  | false =>
      rw [List.filter_cons_of_neg (by rw [h]; exact Bool.false_ne_true),
        if_neg Bool.false_ne_true, List.nil_append]

/-- The calls granted so far are those of earlier windows and those the entry counts. Of the
earlier ones only the last window's can be less than a window old when this one starts. -/
structure Counted (window limit : ℕ) (span : ℕ → Bool) (s : RateState) (old current : List ℕ)
    (last : ℕ) : Prop where
  count_eq : current.length = s.count
  count_le : s.count ≤ limit
  current_late : ∀ t ∈ current, s.windowStart ≤ t ∧ t ≤ last
  old_early : ∀ t ∈ old, t ≤ s.windowStart
  recent : old.countP (fun t => s.windowStart < t + window) ≤ limit
  within : (old ++ current).countP span ≤ 2 * limit
  started : s.windowStart ≤ last

section Interval
variable {span : ℕ → Bool} {s : RateState} {old current : List ℕ} {last : ℕ} {c : Call}

theorem counted_new (span : ℕ → Bool) (start : ℕ) :
    Counted window limit span ⟨start, 0⟩ [] [] start :=
  ⟨rfl, Nat.zero_le _, nofun, nofun, Nat.zero_le _, Nat.zero_le _, Nat.le_refl _⟩

/-- The check of the window: when it starts a new one, all grants so far are earlier ones. -/
theorem Counted.openWindow (h : Counted window limit span s old current last)
    (hlast : last ≤ c.now) : ∃ old' current', old' ++ current' = old ++ current ∧
      Counted window limit span (openWindow window (some s) c) old' current' c.now := by
  unfold RateLimiter.openWindow
  dsimp only [Option.getD_some]
  by_cases hnew : window ≤ c.now - s.windowStart
  · rw [if_pos hnew]
    refine ⟨old ++ current, [], List.append_nil _, rfl, Nat.zero_le _, nofun, ?_, ?_, ?_,
      Nat.le_refl _⟩
    · intro t ht
      cases List.mem_append.mp ht with
      | inl hold => exact (h.old_early t hold).trans (h.started.trans hlast)
      | inr hcurrent => exact (h.current_late t hcurrent).2.trans hlast
    · -- a grant of an earlier window is as old as this window at least
      have hold : old.countP (fun t => decide (c.now < t + window)) = 0 := by
        rw [List.countP_eq_zero]
        intro t ht
        have hearly := h.old_early t ht
        have hstarted := h.started
        rw [decide_eq_true_eq]
        omega
      rw [List.countP_append, hold, Nat.zero_add]
      exact List.countP_le_length.trans (h.count_eq.trans_le h.count_le)
    · rw [List.append_nil]
      exact h.within
  · rw [if_neg hnew]
    exact ⟨old, current, rfl, h.count_eq, h.count_le,
      fun t ht => ⟨(h.current_late t ht).1, (h.current_late t ht).2.trans hlast⟩, h.old_early,
      h.recent, h.within, h.started.trans hlast⟩

/-- Two grants in one span are less than a window apart, so a grant now shares its span with
grants of this window and of the one before. -/
theorem Counted.grant (h : Counted window limit span s old current last)
    (hspan : ∀ x y, span x = true → span y = true → y < x + window) (hroom : s.count < limit) :
    Counted window limit span { s with count := s.count + 1 } old (current ++ [last]) last := by
  refine ⟨?_, hroom, ?_, h.old_early, h.recent, ?_, h.started⟩
  · rw [List.length_append, h.count_eq]
    rfl
  · intro t ht
    cases List.mem_append.mp ht with
    | inl hcurrent => exact h.current_late t hcurrent
    | inr hlast =>
        rw [List.mem_singleton.mp hlast]
        exact ⟨h.started, Nat.le_refl _⟩
  · rw [← List.append_assoc, List.countP_append]
    cases hnow : span last with
    | false =>
        rw [List.countP_singleton, hnow]
        exact h.within
    | true =>
        have hold : old.countP span ≤ limit := by
          refine le_trans (List.countP_mono_left fun t _ ht => ?_) h.recent
          rw [decide_eq_true_eq]
          exact h.started.trans_lt (hspan t last ht hnow)
        have hcurrent : current.countP span ≤ s.count :=
          h.count_eq ▸ List.countP_le_length
        rw [List.countP_append, List.countP_singleton, hnow, if_pos rfl]
        omega

theorem Counted.takeCall (h : Counted window limit span s old current last)
    (hspan : ∀ x y, span x = true → span y = true → y < x + window) (hlast : last ≤ c.now) :
    ∃ old' current', old' ++ current' =
        old ++ current ++ (if (takeCall window limit (some s) c).1 then [c.now] else []) ∧
      Counted window limit span (takeCall window limit (some s) c).2 old' current' c.now := by
  obtain ⟨old', current', hsame, hopen⟩ := h.openWindow hlast
  obtain ⟨hroom, heq⟩ | ⟨_, heq⟩ := @takeCall_cases window limit (some s) c
  · rw [heq]
    refine ⟨old', current' ++ [c.now], ?_, hopen.grant hspan hroom⟩
    rw [← List.append_assoc, hsame]
    rfl
  · rw [heq]
    refine ⟨old', current', ?_, hopen⟩
    rw [hsame, if_neg Bool.false_ne_true, List.append_nil]

theorem toolLog_within (h : Counted window limit span s old current last)
    (hspan : ∀ x y, span x = true → span y = true → y < x + window) {calls : List Call}
    (hclock : Clocked calls) (hlast : ∀ c ∈ calls, last ≤ c.entered) :
    (old ++ current ++ grants (toolLog window limit (some s) calls)).countP span ≤ 2 * limit := by
  induction calls generalizing s old current last with
  | nil =>
      rw [show grants (toolLog window limit (some s) []) = [] from rfl, List.append_nil]
      exact h.within
  | cons c calls ih =>
      have hnow : last ≤ c.now :=
        (hlast c List.mem_cons_self).trans (hclock.2 c List.mem_cons_self)
      obtain ⟨old', current', hsame, hnext⟩ := h.takeCall hspan hnow
      have hrest := ih hnext
        ⟨(List.pairwise_cons.mp hclock.1).2, fun d hd => hclock.2 d (List.mem_cons_of_mem _ hd)⟩
        (List.pairwise_cons.mp hclock.1).1
      rw [toolLog, grants_cons, ← List.append_assoc, ← hsame]
      exact hrest

/-- A first call is as one that finds a window started when it entered. -/
theorem takeCall_none (c : Call) :
    takeCall window limit none c = takeCall window limit (some ⟨c.entered, 0⟩) c := rfl

theorem toolLog_grants_within
    (hspan : ∀ x y, span x = true → span y = true → y < x + window) {calls : List Call}
    (hclock : Clocked calls) :
    (grants (toolLog window limit none calls)).countP span ≤ 2 * limit := by
  cases calls with
  | nil => exact Nat.zero_le _
  | cons c calls =>
      have hsame : grants (toolLog window limit none (c :: calls)) =
          grants (toolLog window limit (some ⟨c.entered, 0⟩) (c :: calls)) := by
        rw [toolLog, toolLog, grants_cons, grants_cons, takeCall_none]
      have hentered : ∀ d ∈ c :: calls, c.entered ≤ d.entered := by
        intro d hd
        cases List.mem_cons.mp hd with
        | inl heq => exact (congrArg Call.entered heq).ge
        | inr hmem =>
            exact (hclock.2 c List.mem_cons_self).trans
              ((List.pairwise_cons.mp hclock.1).1 d hmem)
      rw [hsame]
      exact toolLog_within (counted_new span c.entered) hspan hclock hentered

end Interval

/-! ### Windows -/

theorem openWindow_of_not_starts {s : RateState} {c : Call}
    (h : startsWindow window (some s) c = false) : openWindow window (some s) c = s := by
  have hshort : ¬ window ≤ c.now - s.windowStart := of_decide_eq_false h
  exact if_neg hshort

/-- The calls of a window and the state count the grants of the window. -/
theorem window_grants {s : RateState} {calls : List Call} {before after : List Entry}
    (hcount : s.count ≤ limit) (hsplit : toolLog window limit (some s) calls = before ++ after)
    (hbefore : ∀ entry ∈ before, entry.reset = false) :
    (grants before).length + s.count ≤ limit := by
  induction calls generalizing s before with
  | nil =>
      have hnil : before = [] := (List.append_eq_nil_iff.mp hsplit.symm).1
      rw [hnil]
      exact (Nat.zero_add _).trans_le hcount
  | cons c calls ih =>
      cases before with
      | nil => exact (Nat.zero_add _).trans_le hcount
      | cons entry before =>
          rw [toolLog, List.cons_append] at hsplit
          obtain ⟨rfl, hrest⟩ := List.cons.inj hsplit
          have hsame := openWindow_of_not_starts (hbefore _ List.mem_cons_self)
          have hlater : ∀ entry ∈ before, entry.reset = false :=
            fun entry hentry => hbefore entry (List.mem_cons_of_mem _ hentry)
          rw [grants_cons, List.length_append]
          obtain ⟨hroom, heq⟩ | ⟨_, heq⟩ := @takeCall_cases window limit
            (some s) c
          · rw [hsame] at hroom heq
            rw [heq] at hrest ⊢
            have hle := @ih { s with count := s.count + 1 } _ hroom hrest hlater
            dsimp only at hle
            rw [if_pos rfl, List.length_singleton]
            omega
          · rw [hsame] at heq
            rw [heq] at hrest ⊢
            have hle := ih hcount hrest hlater
            rw [if_neg Bool.false_ne_true, List.length_nil, Nat.zero_add]
            exact hle

theorem takeCall_count {state : Option RateState}
    (hcount : ∀ s, state = some s → s.count ≤ limit) (c : Call) :
    (takeCall window limit state c).2.count ≤ limit ∧
      (if (takeCall window limit state c).1 then [c.now] else []).length ≤
        (takeCall window limit state c).2.count := by
  have hopen : (openWindow window state c).count ≤ limit := by
    unfold openWindow
    cases state with
    | none =>
        dsimp only [Option.getD_none]
        split <;> exact Nat.zero_le _
    | some s =>
        dsimp only [Option.getD_some]
        split
        · exact Nat.zero_le _
        · exact hcount s rfl
  obtain ⟨hroom, heq⟩ | ⟨_, heq⟩ := @takeCall_cases window limit state c
  · rw [heq]
    exact ⟨hroom, Nat.succ_le_succ (Nat.zero_le _)⟩
  · rw [heq]
    exact ⟨hopen, Nat.zero_le _⟩

/-- A call and those behind it that start no window are granted at most as often as the limit
says. -/
theorem toolLog_window {state : Option RateState} {calls : List Call} {first : Entry}
    {before between after : List Entry} (hcount : ∀ s, state = some s → s.count ≤ limit)
    (hsplit : toolLog window limit state calls = before ++ first :: (between ++ after))
    (hbetween : ∀ entry ∈ between, entry.reset = false) :
    (grants (first :: between)).length ≤ limit := by
  induction calls generalizing state before with
  | nil =>
      have hnil := (List.append_eq_nil_iff.mp hsplit.symm).2
      contradiction
  | cons c calls ih =>
      obtain ⟨hnext, hgrant⟩ := @takeCall_count window limit state hcount c
      rw [toolLog] at hsplit
      cases before with
      | nil =>
          obtain ⟨rfl, hrest⟩ := List.cons.inj hsplit
          have hle := window_grants hnext hrest hbetween
          rw [grants_cons, List.length_append]
          dsimp only
          omega
      | cons entry before =>
          obtain ⟨_, hrest⟩ := List.cons.inj hsplit
          exact ih (fun s hs => Option.some.inj hs ▸ hnext) hrest

end Tool

/-! ## The limiter -/

/-- The windows of the tools, by their keys. -/
abbrev State := String → Option RateState

def ToolRateLimiter.limit (limiter : ToolRateLimiter) (toolKey : String) : Option ℕ :=
  match limiter.limits toolKey with
  | some limit => some limit
  | none => limiter.defaultLimit

section Limiter
variable (toLowercase : String → String) (limiter : ToolRateLimiter)

def allow (state : State) (c : Call) : Bool × State :=
  let toolKey := toLowercase c.tool
  match limiter.limit toolKey with
  | none => (true, state)
  | some limit =>
      if limit = 0 then (true, state)
      else
        let result := takeCall limiter.window limit (state toolKey) c
        (result.1, Function.update state toolKey (some result.2))

/-- The answers to a run of calls. -/
def log : State → List Call → List Entry
  | _, [] => []
  | state, c :: calls =>
      let result := allow toLowercase limiter state c
      ⟨c, result.1, startsWindow limiter.window (state (toLowercase c.tool)) c⟩ ::
        log result.2 calls

def keyCalls (key : String) (calls : List Call) : List Call :=
  calls.filter fun c => toLowercase c.tool == key

/-- The answers to the calls for `key` in a run of calls for any tools. -/
def keyLog (state : State) (key : String) (calls : List Call) : List Entry :=
  (log toLowercase limiter state calls).filter fun entry => toLowercase entry.call.tool == key

variable {toLowercase} {limiter} {key : String} {n : ℕ}

theorem allow_key (hlimit : limiter.limit key = some n) (hpos : 0 < n) (state : State) {c : Call}
    (hkey : toLowercase c.tool = key) : allow toLowercase limiter state c =
      ((takeCall limiter.window n (state key) c).1,
        Function.update state key (some (takeCall limiter.window n (state key) c).2)) := by
  unfold allow
  dsimp only
  rw [hkey, hlimit]
  exact if_neg hpos.ne'

/-- A call leaves the windows of the other tools as they are. -/
theorem allow_other (state : State) {c : Call} (hkey : toLowercase c.tool ≠ key) :
    (allow toLowercase limiter state c).2 key = state key := by
  unfold allow
  dsimp only
  cases limiter.limit (toLowercase c.tool) with
  | none => rfl
  | some limit =>
      dsimp only
      by_cases hzero : limit = 0
      · rw [if_pos hzero]
      · rw [if_neg hzero]
        exact Function.update_of_ne (Ne.symm hkey) _ _

theorem keyLog_eq (hlimit : limiter.limit key = some n) (hpos : 0 < n) (state : State)
    (calls : List Call) : keyLog toLowercase limiter state key calls =
      toolLog limiter.window n (state key) (keyCalls toLowercase key calls) := by
  induction calls generalizing state with
  | nil => rfl
  | cons c calls ih =>
      have hrest := ih (allow toLowercase limiter state c).2
      unfold keyLog keyCalls at hrest ⊢
      rw [log]
      by_cases hkey : toLowercase c.tool = key
      · rw [List.filter_cons, List.filter_cons, if_pos (beq_iff_eq.mpr hkey),
          if_pos (beq_iff_eq.mpr hkey), toolLog, hrest, allow_key hlimit hpos state hkey, hkey]
        dsimp only
        rw [Function.update_self]
      · have hne : ¬ (toLowercase c.tool == key) = true := fun h => hkey (beq_iff_eq.mp h)
        rw [List.filter_cons, List.filter_cons, if_neg hne, if_neg hne, hrest,
          allow_other state hkey]

theorem Clocked.keyCalls {calls : List Call} (h : Clocked calls) :
    Clocked (keyCalls toLowercase key calls) :=
  ⟨h.1.filter _, fun c hc => h.2 c (List.mem_filter.mp hc).1⟩

theorem keyCalls_keyCalls (calls : List Call) :
    keyCalls toLowercase key (keyCalls toLowercase key calls) = keyCalls toLowercase key calls := by
  unfold keyCalls
  rw [List.filter_filter]
  exact List.filter_congr fun c _ => Bool.and_self _

theorem mem_log {state : State} {calls : List Call} {entry : Entry}
    (h : entry ∈ log toLowercase limiter state calls) : entry.call ∈ calls := by
  induction calls generalizing state with
  | nil => exact absurd h List.not_mem_nil
  | cons c calls ih =>
      rw [log] at h
      cases List.mem_cons.mp h with
      | inl heq => exact heq ▸ List.mem_cons_self
      | inr hrest => exact List.mem_cons_of_mem _ (ih hrest)

theorem keyLog_keyCalls (state : State) (calls : List Call) :
    keyLog toLowercase limiter state key (keyCalls toLowercase key calls) =
      log toLowercase limiter state (keyCalls toLowercase key calls) :=
  List.filter_eq_self.mpr fun _ hentry => (List.mem_filter.mp (mem_log hentry)).2

variable (toLowercase) (limiter) (key) (n)

/-- What a limit of `n` calls holds the grants for `key` to. -/
structure Limits (calls : List Call) : Prop where
  closed_open : ∀ start stop, stop ≤ start + limiter.window →
    (grants (keyLog toLowercase limiter (fun _ => none) key calls)).countP
      (fun t => start ≤ t ∧ t < stop) ≤ 2 * n
  open_closed : ∀ start stop, stop ≤ start + limiter.window →
    (grants (keyLog toLowercase limiter (fun _ => none) key calls)).countP
      (fun t => start < t ∧ t ≤ stop) ≤ 2 * n
  window : ∀ before first between after,
    keyLog toLowercase limiter (fun _ => none) key calls =
      before ++ first :: (between ++ after) → (∀ entry ∈ between, entry.reset = false) →
    (grants (first :: between)).length ≤ n
  own : keyLog toLowercase limiter (fun _ => none) key calls =
    log toLowercase limiter (fun _ => none) (keyCalls toLowercase key calls)

variable {key} {n}

/-- A limiter holds each tool to its limit, whatever calls for other tools come between. -/
theorem allow_limits (hlimit : limiter.limit key = some n) (hpos : 0 < n) {calls : List Call}
    (hclock : Clocked calls) : Limits toLowercase limiter key n calls := by
  have hlog := @keyLog_eq toLowercase limiter key n hlimit hpos (fun _ => none) calls
  constructor
  · intro start stop hshort
    rw [hlog]
    refine toolLog_grants_within ?_ hclock.keyCalls
    intro x y hx hy
    have hfirst := (of_decide_eq_true hx).1
    have hsecond := (of_decide_eq_true hy).2
    omega
  · intro start stop hshort
    rw [hlog]
    refine toolLog_grants_within ?_ hclock.keyCalls
    intro x y hx hy
    have hfirst := (of_decide_eq_true hx).1
    have hsecond := (of_decide_eq_true hy).2
    omega
  · intro before first between after hsplit hbetween
    rw [hlog] at hsplit
    exact toolLog_window (fun s hs => absurd hs.symm (Option.some_ne_none s)) hsplit hbetween
  · rw [hlog, ← keyLog_keyCalls, keyLog_eq hlimit hpos, keyCalls_keyCalls]

end Limiter

def searchLimiter : ToolRateLimiter where
  window := 25
  limits toolKey := if toolKey = "search" then some 2 else none
  defaultLimit := some 1

/-- Four calls of `search` around the end of its first window, with another tool between. -/
def searchCalls : List Call :=
  [⟨"search", 0, 0⟩, ⟨"Search", 24, 24⟩, ⟨"list_tags", 24, 25⟩, ⟨"SEARCH", 25, 26⟩,
    ⟨"search", 27, 27⟩]

theorem searchCalls_limits : Limits Text.toAsciiLowercase searchLimiter "search" 2 searchCalls :=
  allow_limits Text.toAsciiLowercase searchLimiter rfl Nat.two_pos ⟨by decide, by decide⟩

example : grants (log Text.toAsciiLowercase searchLimiter (fun _ => none) searchCalls) =
    [0, 24, 25, 26, 27] := by decide +kernel

end DbtNova.RateLimiter
