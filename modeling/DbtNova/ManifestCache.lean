import DbtNova.Error
import Mathlib.Algebra.Order.Ring.Nat

/-!
# The local copy of a remote manifest

Each URI has two files, the body and its metadata, replaced one after the other
by renames. A fetch is modelled by its result and the list of files it replaced,
so that a crash leaves the cache after a front of that list.
-/
namespace DbtNova.ManifestCache

abbrev Bytes := List UInt8

structure CacheMeta where
  sourceUri : String
  fetchedAtMs : ℕ
  etag : Option String
  lastModified : Option String
  remoteModifiedMs : Option ℕ
  deriving DecidableEq, Repr

def CacheMeta.default : CacheMeta where
  sourceUri := ""
  fetchedAtMs := 0
  etag := none
  lastModified := none
  remoteModifiedMs := none

/-- Metadata that cannot be read counts as absent. -/
structure Cache where
  body : Option Bytes
  metadata : Option CacheMeta
  deriving DecidableEq, Repr

def Cache.empty : Cache := ⟨none, none⟩

def Cache.readMeta (cache : Cache) : CacheMeta := cache.metadata.getD CacheMeta.default

inductive CacheWrite where
  | body (bytes : Bytes)
  | metadata (metadata : CacheMeta)
  deriving DecidableEq, Repr

def Cache.write (cache : Cache) : CacheWrite → Cache
  | .body bytes => { cache with body := some bytes }
  | .metadata metadata => { cache with metadata := some metadata }

def Cache.writeAll (cache : Cache) (writes : List CacheWrite) : Cache :=
  writes.foldl Cache.write cache

@[simp] theorem Cache.writeAll_nil (cache : Cache) : cache.writeAll [] = cache := rfl

@[simp] theorem Cache.writeAll_cons (cache : Cache) (write : CacheWrite)
    (writes : List CacheWrite) :
    cache.writeAll (write :: writes) = (cache.write write).writeAll writes := rfl

@[simp] theorem Cache.write_body (cache : Cache) (bytes : Bytes) :
    cache.write (.body bytes) = ⟨some bytes, cache.metadata⟩ := rfl

@[simp] theorem Cache.write_metadata (cache : Cache) (metadata : CacheMeta) :
    cache.write (.metadata metadata) = ⟨cache.body, some metadata⟩ := rfl

structure ManifestResolution where
  sourceUri : String
  cached : Bool
  deriving DecidableEq, Repr

/-- What one fetch returns and, in order, the files it replaced. -/
structure Fetch where
  result : Result ManifestResolution
  writes : List CacheWrite
  deriving DecidableEq, Repr

def Fetch.after (fetch : Fetch) (cache : Cache) : Cache := cache.writeAll fetch.writes

/-- The process dies after `done` of the writes. -/
def Fetch.crashed (fetch : Fetch) (done : ℕ) (cache : Cache) : Cache :=
  cache.writeAll (fetch.writes.take done)

structure Config where
  refreshSecs : ℕ
  maxBytes : ℕ
  fetchTimeoutSecs : ℕ
  deriving DecidableEq, Repr

/-- A copy is good for an hour, and nothing else is limited. -/
def hourly : Config where
  refreshSecs := 3600
  maxBytes := 0
  fetchTimeoutSecs := 0

/-- The cached copy is returned as it is. -/
def servedFromCache (uri : String) : Fetch := ⟨.ok ⟨uri, true⟩, []⟩

def failed (message : String) : Fetch := ⟨.error (.serverError message), []⟩

/-- A failed download is hidden by the cached copy when there is one. -/
def fallBack (cache : Cache) (uri message : String) : Fetch :=
  if cache.body.isSome then servedFromCache uri else failed message

@[simp] theorem servedFromCache_writes (uri : String) : (servedFromCache uri).writes = [] := rfl

@[simp] theorem failed_writes (message : String) : (failed message).writes = [] := rfl

@[simp] theorem fallBack_writes (cache : Cache) (uri message : String) :
    (fallBack cache uri message).writes = [] := by
  unfold fallBack
  split <;> rfl

def isCacheFresh (metadata : CacheMeta) (nowMs refreshSecs : ℕ) : Bool :=
  refreshSecs == 0 || decide (nowMs - metadata.fetchedAtMs < refreshSecs * 1000)

/-- Only a configured limit expires; times are in nanoseconds. -/
def deadlineExpired (timeoutSecs elapsed : ℕ) : Option ℕ :=
  if timeoutSecs ≠ 0 ∧ timeoutSecs * 10 ^ 9 ≤ elapsed then some timeoutSecs else none

/-! The body of a response is read piece by piece into a temporary file. -/

inductive LimitedWriteError where
  | io (error : String)
  | limitExceeded (observed max : ℕ)
  deriving DecidableEq, Repr

/-- An empty read is the end of the body, as is the end of the list. -/
def writeLimitedReader (maxBytes : ℕ) (written : Bytes) :
    List (Except String Bytes) → Except LimitedWriteError Bytes
  | [] => .ok written
  | .error error :: _ => .error (.io error)
  | .ok [] :: _ => .ok written
  | .ok (byte :: bytes) :: reads =>
      let observed := written.length + (byte :: bytes).length
      if 0 < maxBytes ∧ maxBytes < observed then .error (.limitExceeded observed maxBytes)
      else writeLimitedReader maxBytes (written ++ byte :: bytes) reads

def WithinLimit (maxBytes : ℕ) (body : Bytes) : Prop := maxBytes = 0 ∨ body.length ≤ maxBytes

instance (maxBytes : ℕ) (body : Bytes) : Decidable (WithinLimit maxBytes body) :=
  inferInstanceAs (Decidable (_ ∨ _))

theorem writeLimitedReader_whole {maxBytes : ℕ} {pieces : List Bytes}
    (hpieces : ∀ piece ∈ pieces, piece ≠ []) (written : Bytes)
    (hlimit : WithinLimit maxBytes (written ++ pieces.flatten)) :
    writeLimitedReader maxBytes written (pieces.map .ok) = .ok (written ++ pieces.flatten) := by
  induction pieces generalizing written with
  | nil => simp [writeLimitedReader]
  | cons piece pieces ih =>
      cases piece with
      | nil => exact absurd rfl (hpieces [] List.mem_cons_self)
      | cons byte bytes =>
          have hrest := ih (fun piece h => hpieces piece (List.mem_cons_of_mem _ h))
            (written ++ byte :: bytes)
          have hfits : ¬ (0 < maxBytes ∧ maxBytes < written.length + (byte :: bytes).length) := by
            rintro ⟨hpos, hover⟩
            unfold WithinLimit at hlimit
            simp only [List.flatten_cons, List.length_append] at hlimit
            omega
          rw [List.flatten_cons, ← List.append_assoc] at hlimit ⊢
          rw [List.map_cons, writeLimitedReader, if_neg hfits]
          exact hrest hlimit

end DbtNova.ManifestCache
