import DbtNova.LineLog
import DbtNova.ResourceLock
import DbtNova.TransitionSystem
import Mathlib.Data.List.Perm.Subperm

/-!
# The file of tool traces

Calls of tools, in any number of processes, append rows to one file while others read it. A call
opens the file, waits for its lock, and works on the file in several steps: it looks at the
length, empties a file that the row would make too long, writes the row and then the end of its
line. A read takes the file in parts. Any step may fail, and a process may stop anywhere, also in
the midst of a row. Between the steps of one call any other call may run. Locks are those of the
operating system: a call that waits is stuck, and a call that ends has let go of its lock.
-/
namespace DbtNova.TraceLog
open LineLog ResourceLock TransitionSystem

abbrev Bytes := List UInt8

def newline : UInt8 := 10

inductive TraceRawRead where
  | raw (text : Bytes)
  | missing
  | error
  deriving DecidableEq, Repr

/-- Where a call stands that appends a row, or that reads. -/
inductive Phase where
  | opening (row : Bytes)
  | opened (row : Bytes)
  | locked (row : Bytes)
  | resetting (row : Bytes)
  | ready (row : Bytes)
  | written (row : Bytes)
  | unlocking
  | readOpening
  | readOpened
  | readLocked
  | reading (soFar : Bytes)
  | readUnlocking (result : TraceRawRead)
  | ended (result : Option TraceRawRead)
  deriving DecidableEq, Repr

/-- `part n` reads at most `n + 1` bytes. At a failure or a stop in a write, at most `n` bytes
of the row have got into the file. -/
inductive Act where
  | openFile
  | lock
  | inspect
  | reset
  | write
  | endLine
  | part (n : ℕ)
  | unlock
  | fail (n : ℕ)
  | crash (n : ℕ)
  deriving DecidableEq, Repr

def Phase.mode : Phase → Mode
  | .locked _ | .resetting _ | .ready _ | .written _ | .unlocking => .exclusive
  | .readLocked | .reading _ | .readUnlocking _ => .shared
  | .opening _ | .opened _ | .readOpening | .readOpened | .ended _ => .free

/-- Whether reading gives a string. -/
def isUtf8 (text : Bytes) : Bool := (ByteArray.mk text.toArray).validateUTF8

/-- What the locked file looks like to `append_serialized_trace_row_locked`. -/
def prepareTraceFileForAppend (maxBytes length : ℕ) (row : Bytes) : Phase :=
  if 0 < maxBytes ∧ maxBytes < row.length + 1 then .unlocking
  else if 0 < maxBytes ∧ maxBytes < length + (row.length + 1) then .resetting row
  else .ready row

def readLockedTraceRawInner (maxBytes length : ℕ) : Phase :=
  if 0 < maxBytes ∧ maxBytes < length then .readUnlocking .error else .reading []

/-- One step of one call: the file and the call behind it. Waiting for the lock is in `step`. -/
def advance (maxBytes : ℕ) (file : Option Bytes) : Phase → Act → Option (Option Bytes × Phase)
  | .opening row, .openFile => some (some (file.getD []), .opened row)
  | .opened row, .lock => some (file, .locked row)
  | .locked row, .inspect =>
      some (file, prepareTraceFileForAppend maxBytes (file.getD []).length row)
  | .resetting row, .reset => some (some [], .ready row)
  | .ready row, .write => some (some (file.getD [] ++ row), .written row)
  | .written _, .endLine => some (some (file.getD [] ++ [newline]), .unlocking)
  | .unlocking, .unlock => some (file, .ended none)
  | .readOpening, .openFile =>
      match file with
      | none => some (none, .ended (some .missing))
      | some text => some (some text, .readOpened)
  | .readOpened, .lock => some (file, .readLocked)
  | .readLocked, .inspect =>
      some (file, readLockedTraceRawInner maxBytes (file.getD []).length)
  | .reading soFar, .part n =>
      let next := ((file.getD []).drop soFar.length).take (n + 1)
      if next = [] then
        some (file, .readUnlocking (if isUtf8 soFar then .raw soFar else .error))
      else some (file, .reading (soFar ++ next))
  | .readUnlocking result, .unlock => some (file, .ended (some result))
  | .opening _, .fail _ | .opened _, .fail _ => some (file, .ended none)
  | .locked _, .fail _ | .resetting _, .fail _ => some (file, .unlocking)
  | .ready row, .fail n => some (some (file.getD [] ++ row.take n), .unlocking)
  | .written _, .fail _ => some (file, .unlocking)
  | .readOpening, .fail _ | .readOpened, .fail _ => some (file, .ended (some .error))
  | .readLocked, .fail _ | .reading _, .fail _ => some (file, .readUnlocking .error)
  | .ended _, .crash _ => none
  | .ready row, .crash n => some (some (file.getD [] ++ row.take n), .ended none)
  | _, .crash _ => some (file, .ended none)
  | _, _ => none

structure State where
  file : Option Bytes
  calls : List Phase
  deriving DecidableEq, Repr

def State.content (s : State) : Bytes := s.file.getD []

/-- Whether the operating system lets a call take this step now. -/
def allowed (calls : List Phase) (phase : Phase) (act : Act) : Bool :=
  match phase, act with
  | .opened _, .lock => calls.all fun call => call.mode = .free
  | .readOpened, .lock => calls.all fun call => call.mode ≠ .exclusive
  | _, _ => true

def step (maxBytes : ℕ) (s : State) (move : ℕ × Act) : Option State :=
  match s.calls[move.1]? with
  | none => none
  | some phase =>
      if allowed s.calls phase move.2 then
        (advance maxBytes s.file phase move.2).map fun next =>
          ⟨next.1, s.calls.set move.1 next.2⟩
      else none

/-- No file yet; each row has its call, and there are some calls that read. -/
def start (rows : List Bytes) (readers : ℕ) : State :=
  ⟨none, rows.map .opening ++ List.replicate readers .readOpening⟩

def Act.isFault : Act → Bool
  | .fail _ | .crash _ => true
  | _ => false

def faults (moves : List (ℕ × Act)) : ℕ := moves.countP fun move => move.2.isFault

/-! ## What is in the file -/

abbrev Log := List (Piece UInt8)

/-- The pieces of the file behind a step. -/
def logged (phase : Phase) (act : Act) (log : Log) : Log :=
  match phase, act with
  | .resetting _, .reset => []
  | .written row, .endLine => log ++ [.whole row]
  | .written row, .fail _ | .written row, .crash _ => log ++ [.torn row]
  | .ready row, .fail n | .ready row, .crash n => log ++ [.torn (row.take n)]
  | _, _ => log

/-- The part of a row that stands in the file without its end of line. -/
def Phase.pending : Phase → Bytes
  | .written row => row
  | _ => []

/-- The call has this row still to end, or to write. -/
def Phase.carries (row : Bytes) : Phase → Bool
  | .opening r | .opened r | .locked r | .resetting r | .ready r | .written r => r = row
  | _ => false

/-- Between calls the file is a log within its limit. -/
structure Idle (maxBytes : ℕ) (resource : Bytes × Log) : Prop where
  content : resource.1 = text newline resource.2
  fits : 0 < maxBytes → resource.1.length ≤ maxBytes

/-- What a call that holds the lock knows of the file. -/
structure View (maxBytes : ℕ) (resource : Bytes × Log) (phase : Phase) : Prop where
  content : resource.1 = text newline resource.2 ++ phase.pending
  fits : 0 < maxBytes → resource.1.length ≤ maxBytes
  room : ∀ row, 0 < maxBytes → phase = .ready row → resource.1.length + (row.length + 1) ≤ maxBytes
  roomBehind : ∀ row, 0 < maxBytes → phase = .written row → resource.1.length + 1 ≤ maxBytes
  roomEmpty : ∀ row, 0 < maxBytes → phase = .resetting row → row.length + 1 ≤ maxBytes
  soFar : ∀ seen, phase = .reading seen → seen <+: resource.1
  result : ∀ seen, phase = .readUnlocking (.raw seen) → seen = resource.1

section Views
variable {maxBytes : ℕ} {resource : Bytes × Log} {phase : Phase} {row : Bytes}

theorem View.idle (h : View maxBytes resource phase) (hpending : phase.pending = []) :
    Idle maxBytes resource where
  content := by rw [h.content, hpending, List.append_nil]
  fits := h.fits

theorem Idle.view_unlocking (h : Idle maxBytes resource) : View maxBytes resource .unlocking :=
  { content := by rw [h.content]; exact (List.append_nil _).symm
    fits := h.fits, room := by simp, roomBehind := by simp, roomEmpty := by simp
    soFar := by simp, result := by simp }

theorem Idle.view_locked (h : Idle maxBytes resource) : View maxBytes resource (.locked row) :=
  { content := by rw [h.content]; exact (List.append_nil _).symm
    fits := h.fits, room := by simp, roomBehind := by simp, roomEmpty := by simp
    soFar := by simp, result := by simp }

theorem Idle.view_resetting (h : Idle maxBytes resource)
    (hrow : 0 < maxBytes → row.length + 1 ≤ maxBytes) :
    View maxBytes resource (.resetting row) :=
  { content := by rw [h.content]; exact (List.append_nil _).symm
    fits := h.fits, room := by simp, roomBehind := by simp
    roomEmpty := by
      intro r hmax hr
      injection hr with hr
      exact hr ▸ hrow hmax
    soFar := by simp, result := by simp }

theorem Idle.view_ready (h : Idle maxBytes resource)
    (hrow : 0 < maxBytes → resource.1.length + (row.length + 1) ≤ maxBytes) :
    View maxBytes resource (.ready row) :=
  { content := by rw [h.content]; exact (List.append_nil _).symm
    fits := h.fits
    room := by
      intro r hmax hr
      injection hr with hr
      exact hr ▸ hrow hmax
    roomBehind := by simp, roomEmpty := by simp, soFar := by simp, result := by simp }

theorem Idle.view_read (h : Idle maxBytes resource) (hphase : phase.mode = .shared)
    (hsoFar : ∀ seen, phase = .reading seen → seen <+: resource.1)
    (hresult : ∀ seen, phase = .readUnlocking (.raw seen) → seen = resource.1) :
    View maxBytes resource phase where
  content := by
    rw [h.content]
    cases phase <;> first | exact (List.append_nil _).symm | cases hphase
  fits := h.fits
  room := by
    rintro r - rfl
    cases hphase
  roomBehind := by
    rintro r - rfl
    cases hphase
  roomEmpty := by
    rintro r - rfl
    cases hphase
  soFar := hsoFar
  result := hresult

end Views

/-! ## Steps keep the file consistent -/

def Sound (maxBytes : ℕ) (s : State) (log : Log) : Prop :=
  Consistent Phase.mode (Idle maxBytes) (View maxBytes) (s.content, log) s.calls

/-- What one step does: the call takes its step, and no other call is touched. -/
theorem step_cases {maxBytes : ℕ} {s t : State} {i : ℕ} {act : Act}
    (hstep : step maxBytes s (i, act) = some t) :
    ∃ phase file' phase', s.calls[i]? = some phase ∧ allowed s.calls phase act = true ∧
      advance maxBytes s.file phase act = some (file', phase') ∧
      t = ⟨file', s.calls.set i phase'⟩ := by
  simp only [step] at hstep
  split at hstep
  · cases hstep
  · rename_i phase hphase
    split at hstep
    · rename_i hallowed
      rw [Option.map_eq_some_iff] at hstep
      obtain ⟨next, hnext, ht⟩ := hstep
      exact ⟨phase, next.1, next.2, hphase, hallowed, hnext, ht.symm⟩
    · cases hstep

section Steps
variable {maxBytes : ℕ} {file file' : Option Bytes} {phase phase' : Phase} {act : Act} {log : Log}

/-- A call with the lock for itself keeps what it knows, or leaves the file in order. -/
theorem exclusive_advance (hmode : phase.mode = .exclusive)
    (hview : View maxBytes (file.getD [], log) phase)
    (hnext : advance maxBytes file phase act = some (file', phase')) :
    phase'.mode ≠ .shared ∧
      (phase'.mode = .exclusive → View maxBytes (file'.getD [], logged phase act log) phase') ∧
      (phase'.mode = .free → Idle maxBytes (file'.getD [], logged phase act log)) := by
  cases phase with
  | locked row =>
      have hidle := hview.idle rfl
      cases act <;> cases hnext
      case inspect.refl =>
          unfold prepareTraceFileForAppend
          split
          · exact ⟨by decide, fun _ => hidle.view_unlocking, fun hfree => by cases hfree⟩
          · rename_i hrow
            split
            · refine ⟨by simp [Phase.mode], fun _ => hidle.view_resetting ?_, fun h => by cases h⟩
              omega
            · rename_i hfits
              refine ⟨by simp [Phase.mode], fun _ => hidle.view_ready ?_, fun h => by cases h⟩
              simp only [not_and, Nat.not_lt] at hfits
              exact hfits
      case fail.refl => exact ⟨by decide, fun _ => hidle.view_unlocking, fun hfree => by cases hfree⟩
      case crash.refl => exact ⟨by decide, (fun h => by cases h), fun _ => hidle⟩
  | resetting row =>
      have hidle := hview.idle rfl
      cases act <;> cases hnext
      case reset.refl =>
          have hempty : Idle maxBytes (([], []) : Bytes × Log) := ⟨rfl, fun _ => Nat.zero_le _⟩
          refine ⟨by simp [Phase.mode], fun _ => hempty.view_ready ?_, fun h => by cases h⟩
          intro hmax
          simpa using hview.roomEmpty row hmax rfl
      case fail.refl => exact ⟨by decide, fun _ => hidle.view_unlocking, fun hfree => by cases hfree⟩
      case crash.refl => exact ⟨by decide, (fun h => by cases h), fun _ => hidle⟩
  | ready row =>
      have hidle := hview.idle rfl
      have htorn (n : ℕ) :
          Idle maxBytes (file.getD [] ++ row.take n, log ++ [.torn (row.take n)]) := by
        refine ⟨?_, ?_⟩
        · simpa using hidle.content
        · intro hmax
          have hroom := hview.room row hmax rfl
          simp only [List.length_append, List.length_take]
          simp only at hroom
          omega
      cases act <;> cases hnext
      case write.refl =>
          refine ⟨by simp [Phase.mode], fun _ => ?_, fun h => by cases h⟩
          exact
            { content := by simpa [Phase.pending, logged] using hidle.content
              fits := by
                intro hmax
                have hroom := hview.room row hmax rfl
                simp only [Option.getD_some, List.length_append]
                simp only at hroom
                omega
              room := by simp
              roomBehind := by
                rintro r hmax -
                have hroom := hview.room row hmax rfl
                simp only [Option.getD_some, List.length_append]
                simp only at hroom
                omega
              roomEmpty := by simp, soFar := by simp, result := by simp }
      case fail.refl n => exact ⟨by decide, fun _ => (htorn n).view_unlocking, fun h => by cases h⟩
      case crash.refl n => exact ⟨by decide, (fun h => by cases h), fun _ => htorn n⟩
  | written row =>
      have hcontent : file.getD [] = text newline log ++ row := hview.content
      have htorn : Idle maxBytes (file.getD [], log ++ [.torn row]) :=
        ⟨by simpa using hcontent, hview.fits⟩
      cases act <;> cases hnext
      case endLine.refl =>
          refine ⟨by decide, fun _ => Idle.view_unlocking ?_, fun h => by cases h⟩
          refine ⟨by simp [logged, hcontent], ?_⟩
          intro hmax
          have hroom := hview.roomBehind row hmax rfl
          simpa using hroom
      case fail.refl => exact ⟨by decide, fun _ => htorn.view_unlocking, fun h => by cases h⟩
      case crash.refl => exact ⟨by decide, (fun h => by cases h), fun _ => htorn⟩
  | unlocking =>
      have hidle := hview.idle rfl
      cases act <;> cases hnext
      case unlock.refl => exact ⟨by decide, (fun h => by cases h), fun _ => hidle⟩
      case crash.refl => exact ⟨by decide, (fun h => by cases h), fun _ => hidle⟩
  | _ => cases hmode

theorem reading_next {content seen : Bytes} {n : ℕ} (h : seen <+: content) :
    seen ++ (content.drop seen.length).take (n + 1) <+: content := by
  obtain ⟨rest, rfl⟩ := h
  rw [List.drop_left, List.prefix_append_right_inj]
  exact List.take_prefix _ _

theorem reading_end {content seen : Bytes} {n : ℕ} (h : seen <+: content)
    (hend : (content.drop seen.length).take (n + 1) = []) : seen = content := by
  obtain ⟨rest, rfl⟩ := h
  rw [List.drop_left, List.take_eq_nil_iff] at hend
  have hrest : rest = [] := hend.resolve_left (Nat.succ_ne_zero n)
  rw [hrest, List.append_nil]

/-- A call without the lock for itself, before and after, leaves the file as it is. -/
theorem other_advance (log : Log) (hmode : phase.mode ≠ .exclusive) (hmode' : phase'.mode ≠ .exclusive)
    (hnext : advance maxBytes file phase act = some (file', phase')) :
    file'.getD [] = file.getD [] ∧ logged phase act log = log ∧
      (phase'.mode = .shared → phase.mode = .shared ∨ act = .lock ∧ phase = .readOpened) ∧
      (phase'.mode = .shared → Idle maxBytes (file.getD [], log) →
        (phase.mode = .shared → View maxBytes (file.getD [], log) phase) →
        View maxBytes (file'.getD [], log) phase') := by
  cases phase with
  | opening row =>
      cases act <;> cases hnext
      case openFile.refl => exact ⟨rfl, rfl, (fun h => by cases h), fun h => by cases h⟩
      case fail.refl => exact ⟨rfl, rfl, (fun h => by cases h), fun h => by cases h⟩
      case crash.refl => exact ⟨rfl, rfl, (fun h => by cases h), fun h => by cases h⟩
  | opened row =>
      cases act <;> cases hnext
      case lock.refl => exact absurd rfl hmode'
      case fail.refl => exact ⟨rfl, rfl, (fun h => by cases h), fun h => by cases h⟩
      case crash.refl => exact ⟨rfl, rfl, (fun h => by cases h), fun h => by cases h⟩
  | readOpening =>
      cases act <;> try cases hnext
      case openFile =>
          cases file <;> cases hnext <;>
            exact ⟨rfl, rfl, (fun h => by cases h), fun h => by cases h⟩
      case fail.refl => exact ⟨rfl, rfl, (fun h => by cases h), fun h => by cases h⟩
      case crash.refl => exact ⟨rfl, rfl, (fun h => by cases h), fun h => by cases h⟩
  | readOpened =>
      cases act <;> cases hnext
      case lock.refl =>
          refine ⟨rfl, rfl, fun _ => Or.inr ⟨rfl, rfl⟩, fun hshared hidle _ => ?_⟩
          exact hidle.view_read hshared (by simp) (by simp)
      case fail.refl => exact ⟨rfl, rfl, (fun h => by cases h), fun h => by cases h⟩
      case crash.refl => exact ⟨rfl, rfl, (fun h => by cases h), fun h => by cases h⟩
  | readLocked =>
      cases act <;> cases hnext
      case inspect.refl =>
          refine ⟨rfl, rfl, fun _ => Or.inl rfl, fun hshared hidle _ => ?_⟩
          refine hidle.view_read hshared ?_ ?_
          · intro seen hseen
            unfold readLockedTraceRawInner at hseen
            split at hseen <;> cases hseen
            exact List.nil_prefix
          · intro seen hseen
            unfold readLockedTraceRawInner at hseen
            split at hseen <;> cases hseen
      case fail.refl =>
          refine ⟨rfl, rfl, fun _ => Or.inl rfl, fun hshared hidle _ => ?_⟩
          exact hidle.view_read hshared (by simp) (by simp)
      case crash.refl => exact ⟨rfl, rfl, (fun h => by cases h), fun h => by cases h⟩
  | reading seen =>
      cases act <;> try cases hnext
      case part n =>
          simp only [advance] at hnext
          split at hnext
          · rename_i hend
            cases hnext
            refine ⟨rfl, rfl, fun _ => Or.inl rfl, fun hshared hidle hview => ?_⟩
            refine hidle.view_read hshared (by simp) ?_
            intro whole hwhole
            have hseen := reading_end ((hview rfl).soFar seen rfl) hend
            split at hwhole
            · cases hwhole
              exact hseen
            · cases hwhole
          · cases hnext
            refine ⟨rfl, rfl, fun _ => Or.inl rfl, fun hshared hidle hview => ?_⟩
            refine hidle.view_read hshared ?_ (by simp)
            rintro more hmore
            cases hmore
            exact reading_next ((hview rfl).soFar seen rfl)
      case fail.refl =>
          refine ⟨rfl, rfl, fun _ => Or.inl rfl, fun hshared hidle _ => ?_⟩
          exact hidle.view_read hshared (by simp) (by simp)
      case crash.refl => exact ⟨rfl, rfl, (fun h => by cases h), fun h => by cases h⟩
  | readUnlocking result =>
      cases act <;> cases hnext
      case unlock.refl => exact ⟨rfl, rfl, (fun h => by cases h), fun h => by cases h⟩
      case crash.refl => exact ⟨rfl, rfl, (fun h => by cases h), fun h => by cases h⟩
  | ended result => cases act <;> cases hnext
  | _ => exact absurd rfl hmode

theorem acquire_advance (hmode : phase.mode ≠ .exclusive) (hmode' : phase'.mode = .exclusive)
    (hnext : advance maxBytes file phase act = some (file', phase')) :
    ∃ row, phase = .opened row ∧ act = .lock ∧ phase' = .locked row ∧ file' = file := by
  cases phase with
  | opened row =>
      cases act <;> cases hnext
      case lock.refl => exact ⟨row, rfl, rfl, rfl, rfl⟩
      case fail.refl => cases hmode'
      case crash.refl => cases hmode'
  | readOpening =>
      cases act <;> try cases hnext
      case openFile => cases file <;> cases hnext <;> cases hmode'
      case fail.refl => cases hmode'
      case crash.refl => cases hmode'
  | readLocked =>
      cases act <;> cases hnext
      case inspect.refl =>
          unfold readLockedTraceRawInner at hmode'
          split at hmode' <;> cases hmode'
      case fail.refl => cases hmode'
      case crash.refl => cases hmode'
  | reading seen =>
      cases act <;> try cases hnext
      case part n =>
          simp only [advance] at hnext
          split at hnext <;> cases hnext <;> cases hmode'
      case fail.refl => cases hmode'
      case crash.refl => cases hmode'
  | opening row => cases act <;> cases hnext <;> cases hmode'
  | readOpened => cases act <;> cases hnext <;> cases hmode'
  | readUnlocking result => cases act <;> cases hnext <;> cases hmode'
  | ended result => cases act <;> cases hnext
  | _ => exact absurd rfl hmode

end Steps

theorem sound_step {maxBytes : ℕ} {s t : State} {i : ℕ} {act : Act} {log : Log} {phase : Phase}
    (h : Sound maxBytes s log) (hphase : s.calls[i]? = some phase)
    (hstep : step maxBytes s (i, act) = some t) : Sound maxBytes t (logged phase act log) := by
  obtain ⟨phase₀, file', phase', hphase₀, hallowed, hnext, rfl⟩ := step_cases hstep
  rw [hphase, Option.some.injEq] at hphase₀
  subst hphase₀
  by_cases hmode : phase.mode = .exclusive
  · obtain ⟨hshared, hheld, hfreed⟩ :=
      exclusive_advance hmode (h.view_at hphase (by rw [hmode]; decide)) hnext
    exact h.exclusive_step hphase hmode hshared hheld hfreed
  · by_cases hmode' : phase'.mode = .exclusive
    · obtain ⟨row, rfl, rfl, rfl, rfl⟩ := acquire_advance hmode hmode' hnext
      have hfree : ∀ q ∈ s.calls, q.mode = .free := by
        simpa [allowed] using hallowed
      exact h.acquire_exclusive hphase hfree fun hidle _ => hidle.view_locked
    · obtain ⟨hfile, hlog, hlocking, hview⟩ := other_advance log hmode hmode' hnext
      have hsame : (⟨file', s.calls.set i phase'⟩ : State).content = s.content := hfile
      rw [Sound, hsame, hlog]
      refine h.other_step hphase hmode hmode' id (fun _ hq => hq) ?_ ?_
      · intro hshared
        refine (hlocking hshared).imp id ?_
        rintro ⟨rfl, rfl⟩
        simpa [allowed] using hallowed
      · intro hshared hidle hseen
        have hnew := hview hshared hidle hseen
        rwa [hfile] at hnew

/-! ## Where the rows are -/

section Rows
variable {maxBytes : ℕ} {file file' : Option Bytes} {phase phase' : Phase} {act : Act} {log : Log}
  {row : Bytes}

/-- How many copies of a row a step gives up: the call stops with it or finds it too large, or
empties the file. -/
def dropped (maxBytes : ℕ) (log : Log) (row : Bytes) (phase : Phase) : Act → ℕ
  | .fail _ | .crash _ => if phase.carries row then 1 else 0
  | .inspect =>
      if phase = .locked row ∧ 0 < maxBytes ∧ maxBytes < row.length + 1 then 1 else 0
  | .reset => (rows log).count row
  | _ => 0

/-- A row goes from its call to the file, or is given up. -/
theorem advance_rows (log : Log) (row : Bytes)
    (hnext : advance maxBytes file phase act = some (file', phase')) :
    (rows (logged phase act log)).count row + (if phase'.carries row then 1 else 0) +
        dropped maxBytes log row phase act =
      (rows log).count row + (if phase.carries row then 1 else 0) := by
  cases phase with
  | locked r =>
      cases act <;> cases hnext
      case inspect.refl =>
          unfold prepareTraceFileForAppend
          by_cases hr : r = row
          · subst hr
            split
            · rename_i hlarge
              have hgone : dropped maxBytes log r (.locked r) .inspect = 1 := if_pos ⟨rfl, hlarge⟩
              simp [logged, Phase.carries, hgone]
            · rename_i hsmall
              have hkept : dropped maxBytes log r (.locked r) .inspect = 0 :=
                if_neg fun h => hsmall h.2
              split <;> simp [logged, Phase.carries, hkept]
          · split
            · simp [logged, Phase.carries, dropped, hr]
            · split <;> simp [logged, Phase.carries, dropped, hr]
      case fail.refl => simp [logged, Phase.carries, dropped]
      case crash.refl => simp [logged, Phase.carries, dropped]
  | written r =>
      cases act <;> cases hnext
      case endLine.refl => by_cases hr : r = row <;> simp [logged, Phase.carries, dropped, hr]
      case fail.refl => simp [logged, Phase.carries, dropped]
      case crash.refl => simp [logged, Phase.carries, dropped]
  | resetting r =>
      cases act <;> cases hnext
      case reset.refl =>
          simp [logged, Phase.carries, dropped, rows, Nat.add_comm]
      case fail.refl => simp [logged, Phase.carries, dropped]
      case crash.refl => simp [logged, Phase.carries, dropped]
  | readOpening =>
      cases act <;> try cases hnext
      case openFile => cases file <;> cases hnext <;> simp [logged, Phase.carries, dropped]
      case fail.refl => simp [logged, Phase.carries, dropped]
      case crash.refl => simp [logged, Phase.carries, dropped]
  | readLocked =>
      cases act <;> cases hnext
      case inspect.refl =>
          unfold readLockedTraceRawInner
          split <;> simp [logged, Phase.carries, dropped]
      case fail.refl => simp [logged, Phase.carries, dropped]
      case crash.refl => simp [logged, Phase.carries, dropped]
  | reading seen =>
      cases act <;> try cases hnext
      case part n =>
          simp only [advance] at hnext
          split at hnext <;> cases hnext <;> simp [logged, Phase.carries, dropped]
      case fail.refl => simp [logged, Phase.carries, dropped]
      case crash.refl => simp [logged, Phase.carries, dropped]
  | _ => cases act <;> cases hnext <;> simp [logged, Phase.carries, dropped]

theorem logged_torn (phase : Phase) (act : Act) (log : Log) : tornCount (logged phase act log) ≤
    tornCount log + (if act.isFault then 1 else 0) := by
  cases phase <;> cases act <;> simp [logged, Act.isFault, tornCount, Piece.isTorn]

theorem logged_separated (h : Separated newline log)
    (hrow : ∀ row, phase.carries row = true → newline ∉ row) :
    Separated newline (logged phase act log) := by
  have hwhole (row : Bytes) (hcarries : phase.carries row = true) :
      Separated newline [.whole row] := by
    intro piece hpiece
    rw [List.mem_singleton.mp hpiece]
    exact hrow row hcarries
  have htorn (row : Bytes) (n : ℕ) (hcarries : phase.carries row = true) :
      Separated newline [.torn (row.take n)] := by
    intro piece hpiece
    rw [List.mem_singleton.mp hpiece]
    exact fun hmem => hrow row hcarries (List.mem_of_mem_take hmem)
  unfold logged
  split
  · exact fun piece hpiece => absurd hpiece List.not_mem_nil
  · exact h.append (hwhole _ (by simp [Phase.carries]))
  · rename_i row n
    have hall := htorn row row.length (by simp [Phase.carries])
    rw [List.take_length] at hall
    exact h.append hall
  · rename_i row n
    have hall := htorn row row.length (by simp [Phase.carries])
    rw [List.take_length] at hall
    exact h.append hall
  · exact h.append (htorn _ _ (by simp [Phase.carries]))
  · exact h.append (htorn _ _ (by simp [Phase.carries]))
  · exact h

end Rows

/-! ## Runs -/

/-- What was in the file at some time: a log with few torn pieces, of rows that were given. -/
structure Written (given : List Bytes) (k : ℕ) (log : Log) : Prop where
  given_rows : (rows log).Subperm given
  torn : tornCount log ≤ k
  separated : Separated newline log

structure Accounted (given : List Bytes) (k : ℕ) (s : State) (log : Log) : Prop where
  counted : ∀ row, (rows log).count row + s.calls.countP (Phase.carries row) ≤ given.count row
  torn : tornCount log ≤ k
  separated : Separated newline log
  read : ∀ seen, Phase.ended (some (.raw seen)) ∈ s.calls →
    ∃ log', Written given k log' ∧ seen = text newline log'

section Runs
variable {maxBytes : ℕ} {given : List Bytes} {k readers : ℕ} {s t : State} {i : ℕ} {act : Act}
  {log : Log} {moves : List (ℕ × Act)}

theorem Accounted.written (h : Accounted given k s log) : Written given k log where
  given_rows := List.subperm_ext_iff.mpr fun row _ => by
    have hrow := h.counted row
    omega
  torn := h.torn
  separated := h.separated

theorem Accounted.mem_given (h : Accounted given k s log) {phase : Phase} {row : Bytes}
    (hphase : phase ∈ s.calls) (hrow : phase.carries row = true) : row ∈ given := by
  have hpos : 0 < s.calls.countP (Phase.carries row) :=
    List.countP_pos_iff.mpr ⟨phase, hphase, hrow⟩
  have hcount := h.counted row
  exact List.count_pos_iff.mp (by omega)

theorem Written.mono {k' : ℕ} (h : Written given k log) (hk : k ≤ k') : Written given k' log :=
  ⟨h.given_rows, Nat.le_trans h.torn hk, h.separated⟩

/-- A read that has come to its end has the file of that time. -/
theorem advance_read {file file' : Option Bytes} {phase phase' : Phase} {seen : Bytes}
    (hnext : advance maxBytes file phase act = some (file', phase'))
    (hseen : phase' = .ended (some (.raw seen))) : phase = .readUnlocking (.raw seen) := by
  subst hseen
  cases phase with
  | locked r =>
      cases act <;> try cases hnext
      case inspect =>
          simp only [advance, prepareTraceFileForAppend, Option.some.injEq, Prod.mk.injEq] at hnext
          split at hnext
          · cases hnext.2
          · split at hnext <;> cases hnext.2
  | readOpening =>
      cases act <;> try cases hnext
      case openFile => cases file <;> cases hnext
  | readLocked =>
      cases act <;> try cases hnext
      case inspect =>
          simp only [advance, readLockedTraceRawInner, Option.some.injEq, Prod.mk.injEq] at hnext
          split at hnext <;> cases hnext.2
  | reading sofar =>
      cases act <;> try cases hnext
      case part n =>
          simp only [advance] at hnext
          split at hnext <;> cases hnext
  | readUnlocking result =>
      cases act <;> cases hnext
      rfl
  | _ => cases act <;> cases hnext

theorem accounted_step (hgiven : ∀ row ∈ given, newline ∉ row) (hsound : Sound maxBytes s log)
    (h : Accounted given k s log) {phase : Phase} (hphase : s.calls[i]? = some phase)
    (hstep : step maxBytes s (i, act) = some t) :
    Accounted given (k + if act.isFault then 1 else 0) t (logged phase act log) := by
  obtain ⟨phase₀, file', phase', hphase₀, -, hnext, rfl⟩ := step_cases hstep
  rw [hphase, Option.some.injEq] at hphase₀
  subst hphase₀
  have hmem := List.mem_of_getElem? hphase
  have hview : ∀ seen, phase = .readUnlocking (.raw seen) → seen = text newline log := by
    rintro seen rfl
    have hv := hsound.view_of _ hmem (by simp [Phase.mode])
    rw [hv.result seen rfl, hv.content]
    exact List.append_nil _
  exact
    { counted := by
        intro row
        have hcount := h.counted row
        have hmove := countP_set_add (p := Phase.carries row) (b := phase') hphase
        have hrows := advance_rows log row hnext
        simp only at hmove ⊢
        omega
      torn := Nat.le_trans (logged_torn phase act log) (Nat.add_le_add_right h.torn _)
      separated := logged_separated h.separated fun row hrow => hgiven row (h.mem_given hmem hrow)
      read := by
        intro seen hseen
        rcases List.mem_or_eq_of_mem_set hseen with hold | hended
        · obtain ⟨log', hwritten, htext⟩ := h.read seen hold
          exact ⟨log', hwritten.mono (Nat.le_add_right _ _), htext⟩
        · have hphase' := advance_read hnext hended.symm
          exact ⟨log, h.written.mono (Nat.le_add_right _ _), hview seen hphase'⟩ }

theorem accounted_run (hgiven : ∀ row ∈ given, newline ∉ row) (hsound : Sound maxBytes s log)
    (h : Accounted given k s log) (hrun : run (step maxBytes) s moves = some t) :
    ∃ log, Sound maxBytes t log ∧ Accounted given (k + faults moves) t log := by
  induction moves generalizing s k log with
  | nil =>
      cases hrun
      exact ⟨log, hsound, h⟩
  | cons move moves ih =>
      obtain ⟨u, hu, hut⟩ := run_cons.mp hrun
      obtain ⟨phase, -, -, hphase, -⟩ := step_cases hu
      have hrest := ih (sound_step hsound hphase hu) (accounted_step hgiven hsound h hphase hu) hut
      rw [Nat.add_assoc] at hrest
      rwa [faults, List.countP_cons, Nat.add_comm (List.countP _ _)]

theorem start_calls {phase : Phase} (h : phase ∈ (start given readers).calls) :
    (∃ row ∈ given, phase = .opening row) ∨ phase = .readOpening := by
  rcases List.mem_append.mp h with hrow | hread
  · obtain ⟨row, hmem, rfl⟩ := List.mem_map.mp hrow
    exact Or.inl ⟨row, hmem, rfl⟩
  · exact Or.inr (List.eq_of_mem_replicate hread)

theorem start_carries (row : Bytes) :
    (start given readers).calls.countP (Phase.carries row) = given.count row := by
  have hreaders : (List.replicate readers Phase.readOpening).countP (Phase.carries row) = 0 :=
    List.countP_eq_zero.mpr fun phase hphase => by
      rw [List.eq_of_mem_replicate hphase]
      simp [Phase.carries]
  have hrows : (given.map Phase.opening).countP (Phase.carries row) = given.count row := by
    rw [List.countP_map]
    exact List.countP_congr fun r _ => by simp [Phase.carries]
  rw [start, List.countP_append, hrows, hreaders, Nat.add_zero]

theorem sound_start : Sound maxBytes (start given readers) [] := by
  have hfree : ∀ phase ∈ (start given readers).calls, phase.mode = .free := by
    intro phase hphase
    rcases start_calls hphase with ⟨row, -, rfl⟩ | rfl <;> rfl
  refine ⟨?_, ?_, ?_⟩
  · intro i j p q _ hi _ hmode
    rw [hfree p (List.mem_of_getElem? hi)] at hmode
    cases hmode
  · intro _
    exact ⟨rfl, fun _ => Nat.zero_le _⟩
  · intro p hp hmode
    exact absurd (hfree p hp) hmode

theorem accounted_start : Accounted given 0 (start given readers) [] where
  counted row := by simp [start_carries, rows]
  torn := Nat.le_refl 0
  separated := by simp [Separated]
  read := by
    intro seen hseen
    rcases start_calls hseen with ⟨row, -, hrow⟩ | hread
    · cases hrow
    · cases hread

theorem sound_run (h : Sound maxBytes s log) (hrun : run (step maxBytes) s moves = some t) :
    ∃ log, Sound maxBytes t log := by
  refine run_invariant (fun s => ∃ log, Sound maxBytes s log) ?_ ⟨log, h⟩ hrun
  rintro s ⟨i, act⟩ t ⟨log, hlog⟩ hstep
  obtain ⟨phase, -, -, hphase, -⟩ := step_cases hstep
  exact ⟨_, sound_step hlog hphase hstep⟩

/-- However the calls run into each other, a read gives lines that are rows, whole and each at
most as often as it was written, apart from at most one line for each step that failed or
stopped. -/
theorem read_lines_are_rows (hgiven : ∀ row ∈ given, newline ∉ row)
    (hrun : run (step maxBytes) (start given readers) moves = some t) {seen : Bytes}
    (hread : t.calls[i]? = some (.ended (some (.raw seen)))) :
    ∃ intact : List Bytes, intact.Sublist (lines newline seen) ∧ intact.Subperm given ∧
      (lines newline seen).length ≤ intact.length + faults moves := by
  obtain ⟨log, -, hacc⟩ := accounted_run hgiven sound_start accounted_start hrun
  rw [Nat.zero_add] at hacc
  obtain ⟨log', hwritten, rfl⟩ := hacc.read seen (List.mem_of_getElem? hread)
  obtain ⟨intact, hlines, hrows, hfew, -⟩ := exists_intact [] log'
  rw [← lines_whole_text hwritten.separated] at hlines hfew
  have htorn := hwritten.torn
  refine ⟨intact, hlines, hrows.subperm.trans hwritten.given_rows, ?_⟩
  simp only [if_true] at hfew
  omega

def hi : Bytes := [104, 105]

def ok : Bytes := [111, 107]

/-- A first call fails in the midst of its row, a second one appends behind it. -/
def tornMoves : List (ℕ × Act) :=
  [(0, .openFile), (1, .openFile), (0, .lock), (0, .inspect), (0, .fail 1), (0, .unlock),
    (1, .lock), (1, .inspect), (1, .write), (1, .endLine), (1, .unlock),
    (2, .openFile), (2, .lock), (2, .inspect), (2, .part 2), (2, .part 9), (2, .part 0),
    (2, .unlock)]

theorem read_lines_are_rows_torn : ∃ intact : List Bytes,
    intact.Sublist (lines newline [104, 111, 107, 10]) ∧ intact.Subperm [hi, ok] ∧
      (lines newline [104, 111, 107, 10]).length ≤ intact.length + faults tornMoves := by
  have hrun : run (step 0) (start [hi, ok] 1) tornMoves =
      some ⟨some [104, 111, 107, 10],
        [.ended none, .ended none, .ended (some (.raw [104, 111, 107, 10]))]⟩ := by decide
  exact read_lines_are_rows (i := 2) (by decide) hrun rfl

/-- At no moment is the file longer than its limit. -/
theorem file_within_limit (hmax : 0 < maxBytes)
    (hrun : run (step maxBytes) (start given readers) moves = some t) :
    t.content.length ≤ maxBytes := by
  obtain ⟨log, hsound⟩ := sound_run sound_start hrun
  by_cases hheld : ∃ p ∈ t.calls, p.mode = .exclusive
  · obtain ⟨p, hp, hmode⟩ := hheld
    exact (hsound.view_of p hp (by rw [hmode]; decide)).fits hmax
  · refine (hsound.idle_of fun p hp hmode => hheld ⟨p, hp, hmode⟩).fits hmax

/-- The second row does not fit behind the first. -/
def fullMoves : List (ℕ × Act) :=
  [(0, .openFile), (0, .lock), (0, .inspect), (0, .write), (0, .endLine), (0, .unlock),
    (1, .openFile), (1, .lock), (1, .inspect), (1, .reset), (1, .write)]

theorem file_within_limit_full :
    (State.mk (some ok) [.ended none, .written ok]).content.length ≤ 4 := by
  have hrun : run (step 4) (start [hi, ok] 0) fullMoves =
      some ⟨some ok, [.ended none, .written ok]⟩ := by decide
  exact file_within_limit (by decide) hrun

/-! ## No row is lost -/

/-- The row stands in no line of the file. -/
def Phase.unwritten? : Phase → Option Bytes
  | .opening row | .opened row | .locked row | .resetting row | .ready row => some row
  | _ => none

/-- The row is the last line of the file, its end is still missing. -/
def Phase.written? : Phase → Option Bytes
  | .written row => some row
  | _ => none

def Act.keepsRows : Act → Bool
  | .reset | .fail _ | .crash _ => false
  | _ => true

theorem count_carries (row : Bytes) (calls : List Phase) :
    calls.countP (Phase.carries row) =
      (calls.filterMap Phase.written?).count row + (calls.filterMap Phase.unwritten?).count row := by
  induction calls with
  | nil => rfl
  | cons phase calls ih =>
      rw [List.countP_cons, ih]
      cases phase <;>
        simp only [List.filterMap_cons, Phase.written?, Phase.unwritten?, Phase.carries,
          List.count_cons, decide_eq_true_eq, beq_iff_eq, Bool.false_eq_true, if_false] <;> omega

/-- Every row is in the file or with its call. -/
structure Kept (given : List Bytes) (s : State) (log : Log) : Prop where
  counted : ∀ row, (rows log).count row + s.calls.countP (Phase.carries row) = given.count row
  whole : tornCount log = 0

theorem kept_step (hsize : ∀ row ∈ given, 0 < maxBytes → row.length + 1 ≤ maxBytes)
    (hact : act.keepsRows = true) {phase : Phase} (hphase : s.calls[i]? = some phase)
    (h : Kept given s log) (hstep : step maxBytes s (i, act) = some t) :
    Kept given t (logged phase act log) := by
  obtain ⟨phase₀, file', phase', hphase₀, -, hnext, rfl⟩ := step_cases hstep
  rw [hphase, Option.some.injEq] at hphase₀
  subst hphase₀
  have hdropped (row : Bytes) : dropped maxBytes log row phase act = 0 := by
    cases act with
    | inspect =>
        refine if_neg ?_
        rintro ⟨rfl, hmax, hlarge⟩
        have hpos : 0 < s.calls.countP (Phase.carries row) :=
          List.countP_pos_iff.mpr ⟨_, List.mem_of_getElem? hphase, by simp [Phase.carries]⟩
        have hcount := h.counted row
        have hfits := hsize row (List.count_pos_iff.mp (by omega)) hmax
        omega
    | reset => cases hact
    | fail n => cases hact
    | crash n => cases hact
    | _ => rfl
  refine ⟨fun row => ?_, ?_⟩
  · have hcount := h.counted row
    have hmove := countP_set_add (p := Phase.carries row) (b := phase') hphase
    have hrows := advance_rows log row hnext
    rw [hdropped row] at hrows
    simp only at hmove ⊢
    omega
  · have htorn := logged_torn phase act log
    have hfault : act.isFault = false := by
      cases act <;> first | rfl | cases hact
    rw [hfault, h.whole] at htorn
    exact Nat.le_zero.mp htorn

/-- At most one row is just being written, and it is the end of the file. -/
theorem Sound.content_eq (h : Sound maxBytes s log) :
    (s.calls.filterMap Phase.written? = [] ∧ s.content = text newline log) ∨
      ∃ row, s.calls.filterMap Phase.written? = [row] ∧ s.content = text newline log ++ row := by
  have hwritten : ∀ p : Phase, p.mode ≠ .exclusive → p.written? = none := by
    intro p hp
    cases p <;> first | rfl | exact absurd rfl hp
  by_cases hheld : ∃ p ∈ s.calls, p.mode = .exclusive
  · obtain ⟨p, hp, hmode⟩ := hheld
    have hone := h.exclusion.filterMap_eq hp hmode fun q hq => hwritten q (by rw [hq]; decide)
    have hview := (h.view_of p hp (by rw [hmode]; decide)).content
    cases hcase : p.written? with
    | none =>
        rw [hcase, Option.toList_none] at hone
        have hpending : p.pending = [] := by
          cases p <;> first | rfl | cases hcase
        rw [hpending, List.append_nil] at hview
        exact Or.inl ⟨hone, hview⟩
    | some row =>
        rw [hcase, Option.toList_some] at hone
        have hpending : p.pending = row := by
          cases p <;> cases hcase
          rfl
        rw [hpending] at hview
        exact Or.inr ⟨row, hone, hview⟩
  · have hnone : s.calls.filterMap Phase.written? = [] :=
      List.filterMap_eq_nil_iff.mpr fun p hp => hwritten p fun hmode => hheld ⟨p, hp, hmode⟩
    exact Or.inl ⟨hnone, (h.idle_of fun p hp hmode => hheld ⟨p, hp, hmode⟩).content⟩

/-- While no row is torn, the lines are the rows that are written and the one that is just
being written. -/
theorem Sound.lines_eq (h : Sound maxBytes s log) (hwhole : tornCount log = 0)
    (hseparated : Separated newline log)
    (hwritten : ∀ row ∈ s.calls.filterMap Phase.written?, row ≠ [] ∧ newline ∉ row) :
    lines newline s.content = rows log ++ s.calls.filterMap Phase.written? := by
  have hrows := tornCount_eq_zero_iff.mp hwhole
  rcases h.content_eq with ⟨hnone, hcontent⟩ | ⟨row, hone, hcontent⟩
  · have htext := lines_whole_text hseparated
    rw [hcontent, hnone, List.append_nil, htext, hrows, linesBehind_whole, rows_map_whole]
  · have hrow := hwritten row (by rw [hone]; exact List.mem_singleton_self row)
    have hsep : Separated newline (log ++ [.torn row]) := by
      refine hseparated.append fun piece hpiece => ?_
      rw [List.mem_singleton.mp hpiece]
      exact hrow.2
    have htext := lines_whole_text hsep
    rw [text_append, text_torn] at htext
    rw [hcontent, hone, htext, hrows, linesBehind_whole_torn _ hrow.1, rows_map_whole]

/-- Without faults the log is made of whole rows all the way. -/
theorem kept_run (hgiven : ∀ row ∈ given, newline ∉ row)
    (hsize : ∀ row ∈ given, 0 < maxBytes → row.length + 1 ≤ maxBytes)
    (hmoves : ∀ move ∈ moves, move.2.keepsRows = true)
    (hrun : run (step maxBytes) (start given readers) moves = some t) :
    ∃ log k, Sound maxBytes t log ∧ Accounted given k t log ∧ Kept given t log := by
  have hguarded : Guarded (step maxBytes) (fun _ move => move.2.keepsRows = true)
      (start given readers) moves :=
    guarded_of_forall (fun move hmove _ => hmoves move hmove) _
  refine hguarded.invariant
    (fun s => ∃ log k, Sound maxBytes s log ∧ Accounted given k s log ∧ Kept given s log) ?_ ?_ hrun
  · rintro s ⟨i, act⟩ t hact ⟨log, k, hsound, hacc, hkept⟩ hstep
    obtain ⟨phase, -, -, hphase, -⟩ := step_cases hstep
    exact ⟨_, _, sound_step hsound hphase hstep, accounted_step hgiven hsound hacc hphase hstep,
      kept_step hsize hact hphase hkept hstep⟩
  · refine ⟨[], 0, sound_start, accounted_start, ?_, rfl⟩
    intro row
    simp [start_carries, rows]

/-- Each row is at any moment either a line of the file or still with the call that is to write
it, and no other line is in the file, as long as no step fails, the file is not started anew
and no row is too large by itself. -/
theorem no_row_is_lost (hgiven : ∀ row ∈ given, row ≠ [] ∧ newline ∉ row)
    (hsize : ∀ row ∈ given, 0 < maxBytes → row.length + 1 ≤ maxBytes)
    (hmoves : ∀ move ∈ moves, move.2.keepsRows = true)
    (hrun : run (step maxBytes) (start given readers) moves = some t) :
    (lines newline t.content ++ t.calls.filterMap Phase.unwritten?).Perm given := by
  obtain ⟨log, k, hsound, hacc, hkept⟩ :=
    kept_run (fun row hrow => (hgiven row hrow).2) hsize hmoves hrun
  have hlines := hsound.lines_eq hkept.whole hacc.separated ?_
  · rw [List.perm_iff_count]
    intro row
    have hcount := hkept.counted row
    rw [count_carries] at hcount
    rw [hlines, List.count_append, List.count_append]
    omega
  · intro row hrow
    obtain ⟨phase, hphase, hwritten⟩ := List.mem_filterMap.mp hrow
    refine hgiven row (hacc.mem_given hphase ?_)
    cases phase <;> simp_all [Phase.written?, Phase.carries]

/-- When all calls are through, the file is the given rows, in the order of their writing. -/
theorem content_perm (hgiven : ∀ row ∈ given, newline ∉ row)
    (hsize : ∀ row ∈ given, 0 < maxBytes → row.length + 1 ≤ maxBytes)
    (hmoves : ∀ move ∈ moves, move.2.keepsRows = true)
    (hrun : run (step maxBytes) (start given readers) moves = some t)
    (hended : ∀ call ∈ t.calls, ∃ result, call = .ended result) :
    ∃ written : List Bytes, written.Perm given ∧
      t.content = text newline (written.map .whole) := by
  obtain ⟨log, k, hsound, hacc, hkept⟩ := kept_run hgiven hsize hmoves hrun
  refine ⟨rows log, ?_, ?_⟩
  · rw [List.perm_iff_count]
    intro row
    have hnone : t.calls.countP (Phase.carries row) = 0 := by
      refine List.countP_eq_zero.mpr fun call hcall => ?_
      obtain ⟨result, rfl⟩ := hended call hcall
      exact Bool.false_ne_true
    have hcount := hkept.counted row
    omega
  · rw [← tornCount_eq_zero_iff.mp hkept.whole]
    refine (hsound.idle_of fun call hcall => ?_).content
    obtain ⟨result, rfl⟩ := hended call hcall
    exact fun hmode => by cases hmode

end Runs

theorem no_row_is_lost_midway :
    (lines newline [104, 105, 10, 111] ++ [[104]]).Perm [hi, [111], [104]] := by
  have hrun : run (step 0) (start [hi, [111], [104]] 0)
      [(2, .openFile), (0, .openFile), (0, .lock), (1, .openFile), (0, .inspect), (0, .write),
        (0, .endLine), (0, .unlock), (1, .lock), (1, .inspect), (1, .write)] =
      some ⟨some [104, 105, 10, 111], [.ended none, .written [111], .opened [104]]⟩ := by decide
  exact no_row_is_lost (by decide) (by decide) (by decide) hrun

/-! ## Every call can come to its end -/

def Phase.isEnded : Phase → Bool
  | .ended _ => true
  | _ => false

/-- Without a fault the call comes to its end when the others wait. -/
def Finishes (maxBytes : ℕ) (s : State) (i : ℕ) : Prop :=
  ∃ moves, faults moves = 0 ∧ ∃ file result,
    run (step maxBytes) s moves = some ⟨file, s.calls.set i (.ended result)⟩

section Finishing
variable {maxBytes : ℕ} {file file' : Option Bytes} {calls : List Phase} {i : ℕ}
  {phase phase' : Phase} {row : Bytes}

theorem Finishes.of_ended {result : Option TraceRawRead} (act : Act) (hact : act.isFault = false)
    (hphase : calls[i]? = some phase) (hallowed : allowed calls phase act = true)
    (hnext : advance maxBytes file phase act = some (file', .ended result)) :
    Finishes maxBytes ⟨file, calls⟩ i := by
  refine ⟨[(i, act)], by simp [faults, hact], file', result, ?_⟩
  simp [run, step, hphase, hallowed, hnext]

theorem Finishes.of_step (act : Act) (hact : act.isFault = false)
    (hphase : calls[i]? = some phase) (hallowed : allowed calls phase act = true)
    (hnext : advance maxBytes file phase act = some (file', phase'))
    (h : Finishes maxBytes ⟨file', calls.set i phase'⟩ i) : Finishes maxBytes ⟨file, calls⟩ i := by
  obtain ⟨moves, hmoves, file'', result, hrun⟩ := h
  refine ⟨(i, act) :: moves, ?_, file'', result, ?_⟩
  · rw [faults, List.countP_cons_of_neg (by simp [hact])]
    exact hmoves
  · rw [List.set_set] at hrun
    exact run_cons.mpr ⟨_, by simp [step, hphase, hallowed, hnext], hrun⟩

theorem getElem?_set_of (hphase : calls[i]? = some phase) :
    (calls.set i phase')[i]? = some phase' := by
  have hlt : i < calls.length := (List.getElem?_eq_some_iff.mp hphase).1
  rw [List.getElem?_set_self hlt]

theorem finishes_unlocking (hphase : calls[i]? = some .unlocking) :
    Finishes maxBytes ⟨file, calls⟩ i :=
  .of_ended .unlock rfl hphase rfl rfl

theorem finishes_written (hphase : calls[i]? = some (.written row)) :
    Finishes maxBytes ⟨file, calls⟩ i :=
  .of_step .endLine rfl hphase rfl rfl (finishes_unlocking (getElem?_set_of hphase))

theorem finishes_ready (hphase : calls[i]? = some (.ready row)) :
    Finishes maxBytes ⟨file, calls⟩ i :=
  .of_step .write rfl hphase rfl rfl (finishes_written (getElem?_set_of hphase))

theorem finishes_resetting (hphase : calls[i]? = some (.resetting row)) :
    Finishes maxBytes ⟨file, calls⟩ i :=
  .of_step .reset rfl hphase rfl rfl (finishes_ready (getElem?_set_of hphase))

theorem finishes_locked (hphase : calls[i]? = some (.locked row)) :
    Finishes maxBytes ⟨file, calls⟩ i := by
  refine .of_step .inspect rfl hphase rfl rfl ?_
  unfold prepareTraceFileForAppend
  split
  · exact finishes_unlocking (getElem?_set_of hphase)
  · split
    · exact finishes_resetting (getElem?_set_of hphase)
    · exact finishes_ready (getElem?_set_of hphase)

theorem finishes_readUnlocking {result : TraceRawRead}
    (hphase : calls[i]? = some (.readUnlocking result)) : Finishes maxBytes ⟨file, calls⟩ i :=
  .of_ended .unlock rfl hphase rfl rfl

theorem finishes_reading {seen : Bytes} (hphase : calls[i]? = some (.reading seen)) :
    Finishes maxBytes ⟨file, calls⟩ i := by
  -- One part takes all that is left, and the next part finds the end.
  have hend : ∀ {whole : Bytes} {calls : List Phase}, (file.getD []).length ≤ whole.length →
      calls[i]? = some (.reading whole) → Finishes maxBytes ⟨file, calls⟩ i := by
    intro whole calls hlength hwhole
    have hnext : advance maxBytes file (.reading whole) (.part 0) =
        some (file, .readUnlocking (if isUtf8 whole then .raw whole else .error)) := by
      simp [advance, List.drop_eq_nil_of_le hlength]
    exact .of_step (.part 0) rfl hwhole rfl hnext
      (finishes_readUnlocking (getElem?_set_of hwhole))
  by_cases hlength : (file.getD []).length ≤ seen.length
  · exact hend hlength hphase
  · have hmore : ((file.getD []).drop seen.length).take ((file.getD []).length + 1) =
        (file.getD []).drop seen.length :=
      List.take_of_length_le (by rw [List.length_drop]; omega)
    have hne : (file.getD []).drop seen.length ≠ [] := by
      intro hnil
      rw [List.drop_eq_nil_iff] at hnil
      exact hlength hnil
    have hnext : advance maxBytes file (.reading seen) (.part (file.getD []).length) =
        some (file, .reading (seen ++ (file.getD []).drop seen.length)) := by
      simp only [advance, hmore, if_neg hne]
    refine .of_step (.part (file.getD []).length) rfl hphase rfl hnext
      (hend ?_ (getElem?_set_of hphase))
    rw [List.length_append, List.length_drop]
    omega

theorem finishes_readLocked (hphase : calls[i]? = some .readLocked) :
    Finishes maxBytes ⟨file, calls⟩ i := by
  refine .of_step .inspect rfl hphase rfl rfl ?_
  unfold readLockedTraceRawInner
  split
  · exact finishes_readUnlocking (getElem?_set_of hphase)
  · exact finishes_reading (getElem?_set_of hphase)

/-- A call that holds the lock needs nobody else. -/
theorem finishes_of_held (hphase : calls[i]? = some phase) (hmode : phase.mode ≠ .free) :
    Finishes maxBytes ⟨file, calls⟩ i := by
  cases phase with
  | locked row => exact finishes_locked hphase
  | resetting row => exact finishes_resetting hphase
  | ready row => exact finishes_ready hphase
  | written row => exact finishes_written hphase
  | unlocking => exact finishes_unlocking hphase
  | readLocked => exact finishes_readLocked hphase
  | reading seen => exact finishes_reading hphase
  | readUnlocking result => exact finishes_readUnlocking hphase
  | _ => exact absurd rfl hmode

theorem finishes_opened (hfree : ∀ q ∈ calls, q.mode = .free)
    (hphase : calls[i]? = some (.opened row)) : Finishes maxBytes ⟨file, calls⟩ i :=
  .of_step .lock rfl hphase (by simpa [allowed] using hfree) rfl
    (finishes_locked (getElem?_set_of hphase))

theorem finishes_readOpened (hfree : ∀ q ∈ calls, q.mode = .free)
    (hphase : calls[i]? = some .readOpened) : Finishes maxBytes ⟨file, calls⟩ i := by
  refine .of_step .lock rfl hphase ?_ rfl (finishes_readLocked (getElem?_set_of hphase))
  simp only [allowed, List.all_eq_true, decide_eq_true_eq]
  intro q hq
  rw [hfree q hq]
  decide

/-- While nobody holds the lock, any call can go on to its end. -/
theorem finishes_of_free (hfree : ∀ q ∈ calls, q.mode = .free) (hphase : calls[i]? = some phase)
    (hended : ∀ result, phase ≠ .ended result) : Finishes maxBytes ⟨file, calls⟩ i := by
  have hfree' : ∀ phase' : Phase, phase'.mode = .free →
      ∀ q ∈ calls.set i phase', q.mode = .free := by
    intro phase' hphase' q hq
    rcases List.mem_or_eq_of_mem_set hq with hold | rfl
    · exact hfree q hold
    · exact hphase'
  cases phase with
  | opening row =>
      exact .of_step .openFile rfl hphase rfl rfl
        (finishes_opened (hfree' _ rfl) (getElem?_set_of hphase))
  | opened row => exact finishes_opened hfree hphase
  | readOpening =>
      cases file with
      | none => exact .of_ended .openFile rfl hphase rfl rfl
      | some text =>
          exact .of_step .openFile rfl hphase rfl rfl
            (finishes_readOpened (hfree' _ rfl) (getElem?_set_of hphase))
  | readOpened => exact finishes_readOpened hfree hphase
  | ended result => exact absurd rfl (hended result)
  | _ => exact finishes_of_held hphase (by simp [Phase.mode])

end Finishing

/-- Nobody waits for ever: wherever the calls stand, also after failures and with calls that
stopped, all can come to their ends without a further fault. -/
theorem all_calls_can_end (maxBytes : ℕ) (s : State) : ∃ moves t, faults moves = 0 ∧
    run (step maxBytes) s moves = some t ∧ ∀ call ∈ t.calls, ∃ result, call = .ended result := by
  -- The induction is on the number of calls that have not ended.
  induction hcount : s.calls.countP (fun call => !call.isEnded) using Nat.strongRecOn
    generalizing s with
  | _ n ih =>
  by_cases hall : ∀ call ∈ s.calls, ∃ result, call = .ended result
  · exact ⟨[], s, rfl, rfl, hall⟩
  · have hfinish : ∃ i phase, s.calls[i]? = some phase ∧ phase.isEnded = false ∧
        Finishes maxBytes s i := by
      by_cases hfree : ∀ q ∈ s.calls, q.mode = .free
      · simp only [not_forall] at hall
        obtain ⟨phase, hmem, hended⟩ := hall
        obtain ⟨i, hphase⟩ := List.mem_iff_getElem?.mp hmem
        have hnot : ∀ result, phase ≠ .ended result := fun result h => hended ⟨result, h⟩
        refine ⟨i, phase, hphase, ?_, finishes_of_free hfree hphase hnot⟩
        cases phase <;> first | rfl | exact absurd rfl (hnot _)
      · simp only [not_forall] at hfree
        obtain ⟨phase, hmem, hmode⟩ := hfree
        obtain ⟨i, hphase⟩ := List.mem_iff_getElem?.mp hmem
        refine ⟨i, phase, hphase, ?_, finishes_of_held hphase hmode⟩
        cases phase <;> first | rfl | exact absurd rfl hmode
    obtain ⟨i, phase, hphase, hended, moves, hmoves, file, result, hrun⟩ := hfinish
    have hfewer := countP_set_add (p := fun call => !Phase.isEnded call) (b := .ended result) hphase
    have hdone : (Phase.ended result).isEnded = true := rfl
    simp only [hended, hdone, Bool.not_true, Bool.not_false, Bool.false_eq_true, if_true,
      if_false] at hfewer
    obtain ⟨moves', t, hmoves', hrun', ht⟩ :=
      ih _ (by simp only; omega) ⟨file, s.calls.set i (.ended result)⟩ rfl
    refine ⟨moves ++ moves', t, ?_, run_append.mpr ⟨_, hrun, hrun'⟩, ht⟩
    rw [faults, List.countP_append]
    unfold faults at hmoves hmoves'
    omega

end DbtNova.TraceLog
