import DbtNova.BoundedCollect
import DbtNova.EntityMeta
import DbtNova.ManifestCache

/-!
# Fetching a manifest from DBFS

One request asks for the status of the file, and a loop of requests reads it
piece by piece. The decoder of a piece is a parameter. The loop has fuel: a
server may send pieces forever.
-/
namespace DbtNova

namespace DbfsManifest
open ManifestCache BoundedCollect

def remoteFetchMaxAttempts : ℕ := 3

inductive StatusReply where
  | failed (error : String)
  | unsuccessful
  | success (body : Except String JsonValue)

inductive ReadReply where
  | failed (error : String)
  | unsuccessful (status : ℕ) (reason : String)
  | success (body : Except String JsonValue)

structure ReadAttempt where
  elapsed : ℕ
  send : ℕ → ReadReply

/-- What the clock, the network and the disk do during one fetch. The rounds of the
read loop are numbered from zero, the attempts of a round from one. -/
structure Environment where
  clientError : Option String
  statusElapsed : ℕ
  status : StatusReply
  now : ℕ
  nowAgain : ℕ
  roundElapsed : ℕ → ℕ
  attempts : ℕ → ℕ → ReadAttempt
  bodyError : Option String
  storedAt : ℕ
  metadataError : Option String

def modificationTime (status : JsonValue) : Option ℕ :=
  (status.get "modification_time").bind JsonValue.asU64

/-- The recorded time is replaced by the reported one where there is one. -/
def recordModified (metadata : CacheMeta) (status : JsonValue) : CacheMeta :=
  match modificationTime status with
  | some remoteModified => { metadata with remoteModifiedMs := some remoteModified }
  | none => metadata

/-- What the status reply decides: the fetch ends here, or goes on with the metadata. -/
def afterStatus (uri : String) (config : Config) (env : Environment) (cache : Cache)
    (metadata : CacheMeta) : Except Fetch CacheMeta :=
  match env.status with
  | .failed error => .error (fallBack cache uri s!"DBFS status failed: {error}")
  | .unsuccessful => .ok metadata
  | .success (.error error) => .error (failed s!"DBFS status parse failed: {error}")
  | .success (.ok status) =>
      let recorded := recordModified metadata status
      if (modificationTime status).isSome ∧ cache.body.isSome ∧
          isCacheFresh recorded env.now config.refreshSecs ∧
          recorded.remoteModifiedMs = modificationTime status then
        .error (servedFromCache uri)
      else .ok recorded

/-- Everything before the first read request. -/
def beforeRead (uri : String) (config : Config) (env : Environment) (cache : Cache) :
    Except Fetch CacheMeta :=
  match env.clientError with
  | some error => .error (failed s!"HTTP client init failed: {error}")
  | none =>
      match deadlineExpired config.fetchTimeoutSecs env.statusElapsed with
      | some timeoutSecs =>
          .error (fallBack cache uri s!"DBFS status timed out after {timeoutSecs}s")
      | none =>
          match afterStatus uri config env cache cache.readMeta with
          | .error fetch => .error fetch
          | .ok metadata =>
              if cache.body.isSome ∧ isCacheFresh metadata env.nowAgain config.refreshSecs then
                .error (servedFromCache uri)
              else .ok metadata

def dbfsReadDataField (body : JsonValue) : String :=
  ((body.get "data").bind JsonValue.asStr).getD ""

def dbfsReadBytesReadField (body : JsonValue) : ℕ :=
  ((body.get "bytes_read").bind JsonValue.asU64).getD 0

inductive Sent where
  | timedOut (timeoutSecs : ℕ)
  | failed (lastErr : Option String)
  | unsuccessful (status : ℕ) (reason : String)
  | success (body : Except String JsonValue)

def sendAttempts (config : Config) (attempts : ℕ → ReadAttempt) (offset : ℕ)
    (lastErr : Option String) : List ℕ → Sent
  | [] => .failed lastErr
  | attempt :: rest =>
      match deadlineExpired config.fetchTimeoutSecs (attempts attempt).elapsed with
      | some timeoutSecs => .timedOut timeoutSecs
      | none =>
          match (attempts attempt).send offset with
          | .failed error => sendAttempts config attempts offset (some error) rest
          | .unsuccessful status reason => .unsuccessful status reason
          | .success body => .success body

def attemptNumbers : List ℕ := (List.range remoteFetchMaxAttempts).map (· + 1)

section Reading
variable (decode : String → Except String Bytes) (uri : String) (config : Config)
  (env : Environment) (cache : Cache)

/-- One round of the loop: the decoded piece and the number of bytes the server
says it read, or the end of the fetch. -/
def readRound (round offset : ℕ) : Except Fetch (Bytes × ℕ) :=
  match deadlineExpired config.fetchTimeoutSecs (env.roundElapsed round) with
  | some timeoutSecs => .error (fallBack cache uri s!"DBFS fetch timed out after {timeoutSecs}s")
  | none =>
      match sendAttempts config (env.attempts round) offset none attemptNumbers with
      | .timedOut timeoutSecs =>
          .error (fallBack cache uri s!"DBFS read timed out after {timeoutSecs}s")
      | .failed lastErr =>
          let error := lastErr.getD "unknown error"
          .error (fallBack cache uri s!"DBFS read failed: {error}")
      | .unsuccessful status reason =>
          .error (fallBack cache uri s!"DBFS read failed (HTTP {status} {reason})")
      | .success (.error error) => .error (failed s!"DBFS read parse failed: {error}")
      | .success (.ok body) =>
          match decode (dbfsReadDataField body) with
          | .error error => .error (failed s!"DBFS decode failed: {error}")
          | .ok chunk => .ok (chunk, dbfsReadBytesReadField body)

def readLoop : (fuel round offset : ℕ) → Bytes → Option (Except Fetch Bytes)
  | 0, _, _, _ => none
  | fuel + 1, round, offset, buffer =>
      match readRound decode uri config env cache round offset with
      | .error fetch => some (.error fetch)
      | .ok (chunk, bytesRead) =>
          let received := buffer ++ chunk
          if 0 < config.maxBytes ∧ config.maxBytes < received.length then
            some (.error (fallBack cache uri
              s!"DBFS manifest exceeded size limit (> {config.maxBytes} bytes)"))
          else if bytesRead = 0 ∨ chunk.isEmpty then some (.ok received)
          else readLoop fuel (round + 1) (saturatingAdd offset bytesRead) received

def store (metadata : CacheMeta) (buffer : Bytes) : Fetch :=
  match env.bodyError with
  | some error => ⟨.error (.ioError error), []⟩
  | none =>
      match env.metadataError with
      | some error => ⟨.error (.ioError error), [.body buffer]⟩
      | none =>
          ⟨.ok ⟨uri, false⟩,
            [.body buffer,
              .metadata { metadata with sourceUri := uri, fetchedAtMs := env.storedAt }]⟩

def fetchDbfsManifest (fuel : ℕ) : Option Fetch :=
  match beforeRead uri config env cache with
  | .error fetch => some fetch
  | .ok metadata =>
      (readLoop decode uri config env cache fuel 0 0 []).map fun read =>
        match read with
        | .error fetch => fetch
        | .ok buffer => store uri env metadata buffer

end Reading
section Whole
variable {decode : String → Except String Bytes} {uri : String} {config : Config}
  {env : Environment} {cache : Cache} {file : Bytes}

theorem afterStatus_writes {metadata : CacheMeta} {fetch : Fetch}
    (h : afterStatus uri config env cache metadata = .error fetch) : fetch.writes = [] := by
  unfold afterStatus at h
  cases hstatus : env.status with
  | failed error =>
      rw [hstatus] at h
      rw [← Except.error.inj h, fallBack_writes]
  | unsuccessful =>
      rw [hstatus] at h
      cases h
  | success body =>
      rw [hstatus] at h
      cases body with
      | error error => rw [← Except.error.inj h, failed_writes]
      | ok status =>
          simp only at h
          split at h
          · rw [← Except.error.inj h, servedFromCache_writes]
          · cases h

theorem beforeRead_writes {fetch : Fetch}
    (h : beforeRead uri config env cache = .error fetch) : fetch.writes = [] := by
  unfold beforeRead at h
  split at h
  · rw [← Except.error.inj h, failed_writes]
  · split at h
    · rw [← Except.error.inj h, fallBack_writes]
    · split at h
      · rename_i hstatus
        rw [← Except.error.inj h]
        exact afterStatus_writes hstatus
      · split at h
        · rw [← Except.error.inj h, servedFromCache_writes]
        · cases h

theorem readRound_writes {round offset : ℕ} {fetch : Fetch}
    (h : readRound decode uri config env cache round offset = .error fetch) :
    fetch.writes = [] := by
  unfold readRound at h
  split at h
  · rw [← Except.error.inj h, fallBack_writes]
  · split at h
    · rw [← Except.error.inj h, fallBack_writes]
    · rw [← Except.error.inj h, fallBack_writes]
    · rw [← Except.error.inj h, fallBack_writes]
    · rw [← Except.error.inj h, failed_writes]
    · split at h
      · rw [← Except.error.inj h, failed_writes]
      · cases h

/-- The rounds of the loop, as far as they succeed. -/
theorem readLoop_succ {fuel round offset : ℕ} {buffer : Bytes} {read : Except Fetch Bytes}
    (h : readLoop decode uri config env cache (fuel + 1) round offset buffer = some read) :
    (∃ fetch, fetch.writes = [] ∧ read = .error fetch) ∨
      ∃ chunk bytesRead,
        readRound decode uri config env cache round offset = .ok (chunk, bytesRead) ∧
          (((bytesRead = 0 ∨ chunk.isEmpty) ∧ read = .ok (buffer ++ chunk)) ∨
            (¬ (bytesRead = 0 ∨ chunk.isEmpty) ∧
              readLoop decode uri config env cache fuel (round + 1)
                (saturatingAdd offset bytesRead) (buffer ++ chunk) = some read)) := by
  rw [readLoop] at h
  cases hround : readRound decode uri config env cache round offset with
  | error fetch =>
      rw [hround] at h
      exact .inl ⟨fetch, readRound_writes hround, (Option.some.inj h).symm⟩
  | ok answer =>
      obtain ⟨chunk, bytesRead⟩ := answer
      rw [hround] at h
      simp only at h
      split at h
      · exact .inl ⟨_, fallBack_writes _ _ _, (Option.some.inj h).symm⟩
      · split at h
        · rename_i hends
          exact .inr ⟨chunk, bytesRead, rfl, .inl ⟨hends, (Option.some.inj h).symm⟩⟩
        · rename_i hends
          exact .inr ⟨chunk, bytesRead, rfl, .inr ⟨hends, h⟩⟩

theorem readLoop_front {fuel round offset : ℕ} {buffer result : Bytes}
    (h : readLoop decode uri config env cache fuel round offset buffer = some (.ok result)) :
    buffer <+: result := by
  induction fuel generalizing round offset buffer with
  | zero => cases h
  | succ fuel ih =>
      rcases readLoop_succ h with ⟨_, _, herror⟩ | ⟨chunk, _, _, ⟨_, hread⟩ | ⟨_, hrest⟩⟩
      · cases herror
      · rw [Except.ok.inj hread]
        exact List.prefix_append buffer chunk
      · exact (List.prefix_append buffer chunk).trans (ih hrest)

variable (decode uri config env cache file) in
/-- From a round on, each answer continues the file where the bytes received so far
end, and the answer that ends the loop brings all that is left. -/
inductive InStep : (round offset received : ℕ) → Prop
  | ends {round offset received bytesRead : ℕ} {chunk : Bytes} :
      readRound decode uri config env cache round offset = .ok (chunk, bytesRead) →
      bytesRead = 0 ∨ chunk.isEmpty → chunk = file.drop received →
      InStep round offset received
  | continues {round offset received bytesRead : ℕ} {chunk : Bytes} :
      readRound decode uri config env cache round offset = .ok (chunk, bytesRead) →
      ¬ (bytesRead = 0 ∨ chunk.isEmpty) → chunk <+: file.drop received →
      InStep (round + 1) (saturatingAdd offset bytesRead) (received + chunk.length) →
      InStep round offset received

theorem front_append_iff {buffer chunk : Bytes} (hbuffer : buffer <+: file) :
    buffer ++ chunk <+: file ↔ chunk <+: file.drop buffer.length := by
  obtain ⟨rest, hrest⟩ := hbuffer
  rw [← hrest, List.drop_left, List.prefix_append_right_inj]

theorem whole_iff {buffer chunk : Bytes} (hbuffer : buffer <+: file) :
    buffer ++ chunk = file ↔ chunk = file.drop buffer.length := by
  obtain ⟨rest, hrest⟩ := hbuffer
  rw [← hrest, List.drop_left, List.append_cancel_left_eq]

theorem readLoop_whole_iff {fuel round offset : ℕ} {buffer result : Bytes}
    (hbuffer : buffer <+: file)
    (h : readLoop decode uri config env cache fuel round offset buffer = some (.ok result)) :
    result = file ↔ InStep decode uri config env cache file round offset buffer.length := by
  induction fuel generalizing round offset buffer with
  | zero => cases h
  | succ fuel ih =>
      rcases readLoop_succ h with
        ⟨_, _, herror⟩ | ⟨chunk, bytesRead, hround, ⟨hends, hread⟩ | ⟨hgoes, hrest⟩⟩
      · cases herror
      · rw [Except.ok.inj hread, whole_iff hbuffer]
        constructor
        · exact InStep.ends hround hends
        · intro hstep
          cases hstep with
          | ends hround' _ hchunk =>
              rw [hround] at hround'
              cases hround'
              exact hchunk
          | continues hround' hgoes' _ _ =>
              rw [hround] at hround'
              cases hround'
              exact absurd hends hgoes'
      · constructor
        · intro hwhole
          have hfront := readLoop_front hrest
          rw [hwhole] at hfront
          have hlater := (ih hfront hrest).mp hwhole
          rw [List.length_append] at hlater
          exact .continues hround hgoes ((front_append_iff hbuffer).mp hfront) hlater
        · intro hstep
          cases hstep with
          | ends hround' hends _ =>
              rw [hround] at hround'
              cases hround'
              exact absurd hends hgoes
          | continues hround' _ hchunk hlater =>
              rw [hround] at hround'
              cases hround'
              rw [← List.length_append] at hlater
              exact (ih ((front_append_iff hbuffer).mpr hchunk) hrest).mpr hlater

theorem readLoop_error_writes {fuel round offset : ℕ} {buffer : Bytes} {fetch : Fetch}
    (h : readLoop decode uri config env cache fuel round offset buffer = some (.error fetch)) :
    fetch.writes = [] := by
  induction fuel generalizing round offset buffer with
  | zero => cases h
  | succ fuel ih =>
      rcases readLoop_succ h with ⟨early, hnone, hread⟩ | ⟨_, _, _, ⟨_, hread⟩ | ⟨_, hrest⟩⟩
      · rw [Except.error.inj hread]
        exact hnone
      · cases hread
      · exact ih hrest

/-- Only a loop that ends leads to a write. -/
theorem fetch_stored {fuel : ℕ} {fetch : Fetch} {write : CacheWrite}
    (hfetch : fetchDbfsManifest decode uri config env cache fuel = some fetch)
    (hwritten : write ∈ fetch.writes) :
    ∃ metadata buffer, beforeRead uri config env cache = .ok metadata ∧
      readLoop decode uri config env cache fuel 0 0 [] = some (.ok buffer) ∧
      fetch = store uri env metadata buffer := by
  unfold fetchDbfsManifest at hfetch
  cases hbefore : beforeRead uri config env cache with
  | error early =>
      rw [hbefore] at hfetch
      rw [← Option.some.inj hfetch, beforeRead_writes hbefore] at hwritten
      cases hwritten
  | ok metadata =>
      rw [hbefore] at hfetch
      obtain ⟨read, hread, hstore⟩ := Option.map_eq_some_iff.mp hfetch
      cases read with
      | error early =>
          rw [← hstore, readLoop_error_writes hread] at hwritten
          cases hwritten
      | ok buffer => exact ⟨metadata, buffer, rfl, hread, hstore.symm⟩

theorem store_cases {metadata : CacheMeta} {buffer : Bytes} {write : CacheWrite}
    (h : write ∈ (store uri env metadata buffer).writes) :
    write = .body buffer ∨
      write = .metadata { metadata with sourceUri := uri, fetchedAtMs := env.storedAt } := by
  unfold store at h
  cases hbody : env.bodyError with
  | some error =>
      rw [hbody] at h
      cases h
  | none =>
      rw [hbody] at h
      cases hmeta : env.metadataError with
      | some error =>
          rw [hmeta] at h
          exact .inl (List.mem_singleton.mp h)
      | none =>
          rw [hmeta] at h
          simpa using h

theorem fetch_written {fuel : ℕ} {fetch : Fetch} {buffer : Bytes}
    (hfetch : fetchDbfsManifest decode uri config env cache fuel = some fetch)
    (hwritten : .body buffer ∈ fetch.writes) :
    readLoop decode uri config env cache fuel 0 0 [] = some (.ok buffer) := by
  obtain ⟨metadata, received, _, hread, hstore⟩ := fetch_stored hfetch hwritten
  rw [hstore] at hwritten
  rcases store_cases hwritten with hbody | hmeta
  · rw [hread, CacheWrite.body.inj hbody]
  · cases hmeta

/-- Servers that keep to the protocol: each answer is a piece of the file at the
requested offset, its length is the stated one, and it is empty only at the end. -/
def Honest (decode : String → Except String Bytes) (uri : String) (config : Config)
    (env : Environment) (cache : Cache) (file : Bytes) : Prop :=
  ∀ round offset chunk bytesRead,
    readRound decode uri config env cache round offset = .ok (chunk, bytesRead) →
      bytesRead = chunk.length ∧ chunk <+: file.drop offset ∧
        (chunk = [] → file.length ≤ offset)

theorem Honest.inStep (h : Honest decode uri config env cache file)
    (hsize : file.length < 2 ^ 64) {fuel round received : ℕ} {buffer result : Bytes}
    (hreceived : received ≤ file.length)
    (hread : readLoop decode uri config env cache fuel round received buffer =
      some (.ok result)) :
    InStep decode uri config env cache file round received received := by
  induction fuel generalizing round received buffer with
  | zero => cases hread
  | succ fuel ih =>
      rcases readLoop_succ hread with
        ⟨_, _, herror⟩ | ⟨chunk, bytesRead, hround, ⟨hends, _⟩ | ⟨hgoes, hrest⟩⟩
      · cases herror
      · obtain ⟨hlength, _, hempty⟩ := h round received chunk bytesRead hround
        have hnil : chunk = [] := by
          rcases hends with hzero | hnil
          · exact List.length_eq_zero_iff.mp (hlength.symm.trans hzero)
          · exact List.isEmpty_iff.mp hnil
        refine .ends hround hends ?_
        rw [hnil, List.drop_of_length_le (hempty hnil)]
      · obtain ⟨hlength, hfront, _⟩ := h round received chunk bytesRead hround
        have hstays : received + chunk.length ≤ file.length := by
          have hshort := hfront.length_le
          rw [List.length_drop] at hshort
          omega
        have hoffset : saturatingAdd received bytesRead = received + chunk.length := by
          unfold saturatingAdd
          rw [hlength]
          omega
        rw [hoffset] at hrest
        refine .continues hround hgoes hfront ?_
        rw [hoffset]
        exact ih hstays hrest

/-- From such a server the file is downloaded whole. -/
theorem honest_whole (h : Honest decode uri config env cache file)
    (hsize : file.length < 2 ^ 64) {fuel : ℕ} {fetch : Fetch} {buffer : Bytes}
    (hfetch : fetchDbfsManifest decode uri config env cache fuel = some fetch)
    (hwritten : .body buffer ∈ fetch.writes) : buffer = file := by
  have hread := fetch_written hfetch hwritten
  exact (readLoop_whole_iff List.nil_prefix hread).mpr
    (h.inStep hsize (Nat.zero_le file.length) hread)

end Whole

section Instances

/-- The decoder on the texts used here. -/
def decodeText (text : String) : Except String Bytes :=
  if text = "" then .ok []
  else if text = "AQI=" then .ok [1, 2]
  else if text = "AwQ=" then .ok [3, 4]
  else .error "Invalid symbol"

def piece (bytesRead data : String) : JsonValue :=
  .object [("bytes_read", .number bytesRead), ("data", .string data)]

/-- Every request is answered at once. -/
def answering (now : ℕ) (modified : String) (answers : ℕ → JsonValue) : Environment where
  clientError := none
  statusElapsed := 0
  status := .success (.ok (.object [("modification_time", .number modified)]))
  now := now
  nowAgain := now
  roundElapsed := fun _ => 0
  attempts := fun _ _ => ⟨0, fun offset => .success (.ok (answers offset))⟩
  bodyError := none
  storedAt := now
  metadataError := none

def fourBytes : ℕ → JsonValue
  | 0 => piece "2" "AQI="
  | 2 => piece "2" "AwQ="
  | _ => piece "0" ""

/-- The second answer has neither field. -/
def secondMissing : ℕ → JsonValue
  | 0 => piece "2" "AQI="
  | _ => .object []

def stored (body : Bytes) (modified : ℕ) : Fetch :=
  ⟨.ok ⟨"dbfs:/m", false⟩, [.body body, .metadata ⟨"dbfs:/m", 0, none, none, some modified⟩]⟩

end Instances

/-! Whether a fetch reads the file again. -/

/-- The fetch gets as far as its first read request. -/
def Downloads (uri : String) (config : Config) (env : Environment) (cache : Cache) : Prop :=
  ∃ metadata, beforeRead uri config env cache = .ok metadata

section Changes
variable {uri : String} {config : Config} {env : Environment} {cache : Cache} {status : JsonValue}

@[simp] theorem recordModified_fetchedAtMs (metadata : CacheMeta) (status : JsonValue) :
    (recordModified metadata status).fetchedAtMs = metadata.fetchedAtMs := by
  unfold recordModified
  split <;> rfl

theorem isCacheFresh_recordModified (metadata : CacheMeta) (status : JsonValue)
    (now refreshSecs : ℕ) :
    isCacheFresh (recordModified metadata status) now refreshSecs =
      isCacheFresh metadata now refreshSecs := by
  unfold isCacheFresh
  rw [recordModified_fetchedAtMs]

theorem recordModified_reported {reported : ℕ} (hreported : modificationTime status = some reported)
    (metadata : CacheMeta) :
    (recordModified metadata status).remoteModifiedMs = some reported := by
  unfold recordModified
  rw [hreported]

/-- The reply to the status request, as far as the decision needs it: no answer that
can be used, or one with or without a time. -/
inductive Reply where
  | none
  | timeless
  | timed (status : JsonValue)

def Environment.reply (env : Environment) : Reply :=
  match env.status with
  | .failed _ => .none
  | .unsuccessful => .timeless
  | .success (.error _) => .none
  | .success (.ok status) => if (modificationTime status).isSome then .timed status else .timeless

theorem afterStatus_none (hreply : env.reply = .none) (metadata : CacheMeta) :
    ∃ fetch, afterStatus uri config env cache metadata = .error fetch := by
  unfold Environment.reply at hreply
  unfold afterStatus
  cases hstatus : env.status with
  | failed error => exact ⟨_, rfl⟩
  | unsuccessful =>
      rw [hstatus] at hreply
      cases hreply
  | success body =>
      rw [hstatus] at hreply
      cases body with
      | error error => exact ⟨_, rfl⟩
      | ok status =>
          simp only at hreply
          split at hreply <;> cases hreply

theorem afterStatus_timeless (hreply : env.reply = .timeless) (metadata : CacheMeta) :
    afterStatus uri config env cache metadata = .ok metadata := by
  unfold Environment.reply at hreply
  unfold afterStatus
  cases hstatus : env.status with
  | failed error =>
      rw [hstatus] at hreply
      cases hreply
  | unsuccessful => rfl
  | success body =>
      rw [hstatus] at hreply
      cases body with
      | error error => cases hreply
      | ok status =>
          simp only at hreply
          split at hreply
          · cases hreply
          · rename_i htime
            rw [Option.not_isSome_iff_eq_none] at htime
            simp only [recordModified, htime, Option.isSome_none, Bool.false_eq_true, false_and,
              if_false]

/-- The reported time is recorded before the comparison, which therefore holds. -/
theorem afterStatus_timed (hreply : env.reply = .timed status) (hbody : cache.body.isSome)
    (metadata : CacheMeta) :
    afterStatus uri config env cache metadata =
      if isCacheFresh metadata env.now config.refreshSecs then .error (servedFromCache uri)
      else .ok (recordModified metadata status) := by
  unfold Environment.reply at hreply
  unfold afterStatus
  cases hstatus : env.status with
  | failed error =>
      rw [hstatus] at hreply
      cases hreply
  | unsuccessful =>
      rw [hstatus] at hreply
      cases hreply
  | success body =>
      rw [hstatus] at hreply
      cases body with
      | error error => cases hreply
      | ok answer =>
          simp only at hreply
          split at hreply
          · rename_i htime
            rw [Reply.timed.inj hreply] at htime ⊢
            obtain ⟨reported, hreported⟩ := Option.isSome_iff_exists.mp htime
            simp only [isCacheFresh_recordModified, recordModified_reported hreported, hreported,
              hbody, Option.isSome_some, true_and, and_true]
          · cases hreply

/-- The age of the copy lets the fetch go on to the read requests. -/
def OldEnough (config : Config) (env : Environment) (metadata : CacheMeta) : Prop :=
  ((∃ status, env.reply = .timed status) →
      isCacheFresh metadata env.now config.refreshSecs = false) ∧
    isCacheFresh metadata env.nowAgain config.refreshSecs = false

theorem downloads_iff (hbody : cache.body.isSome) :
    Downloads uri config env cache ↔
      env.clientError = none ∧
        deadlineExpired config.fetchTimeoutSecs env.statusElapsed = none ∧
        env.reply ≠ .none ∧ OldEnough config env cache.readMeta := by
  unfold Downloads beforeRead OldEnough
  cases hclient : env.clientError with
  | some error => simp
  | none =>
      cases hdeadline : deadlineExpired config.fetchTimeoutSecs env.statusElapsed with
      | some timeoutSecs => simp
      | none =>
          cases hreply : env.reply with
          | none =>
              obtain ⟨fetch, hfetch⟩ :
                  ∃ fetch, afterStatus uri config env cache cache.readMeta = .error fetch :=
                afterStatus_none hreply cache.readMeta
              simp [hfetch]
          | timeless =>
              simp only [afterStatus_timeless hreply, hbody, true_and]
              cases isCacheFresh cache.readMeta env.nowAgain config.refreshSecs with
              | true => simp
              | false => simp
          | timed status =>
              simp only [afterStatus_timed hreply hbody, true_and]
              cases hfresh : isCacheFresh cache.readMeta env.now config.refreshSecs with
              | true => simp
              | false =>
                  simp only [Bool.false_eq_true, if_false, isCacheFresh_recordModified, hbody,
                    true_and]
                  cases isCacheFresh cache.readMeta env.nowAgain config.refreshSecs with
                  | true => simp
                  | false => simp

theorem beforeRead_recorded {metadata : CacheMeta}
    (hstatus : env.status = .success (.ok status))
    (h : beforeRead uri config env cache = .ok metadata) :
    metadata = recordModified cache.readMeta status := by
  unfold beforeRead afterStatus at h
  rw [hstatus] at h
  cases hclient : env.clientError with
  | some error =>
      rw [hclient] at h
      cases h
  | none =>
      rw [hclient] at h
      cases hdeadline : deadlineExpired config.fetchTimeoutSecs env.statusElapsed with
      | some timeoutSecs =>
          rw [hdeadline] at h
          cases h
      | none =>
          rw [hdeadline] at h
          simp only at h
          split at h
          · cases h
          · rename_i recorded hrecorded
            split at hrecorded
            · cases hrecorded
            · rw [Except.ok.inj hrecorded]
              split at h
              · cases h
              · exact (Except.ok.inj h).symm

/-- The metadata written beside a body has the time that the status reported. -/
theorem stored_modified {decode : String → Except String Bytes} {fuel reported : ℕ}
    {fetch : Fetch} {metadata : CacheMeta} (hstatus : env.status = .success (.ok status))
    (hreported : modificationTime status = some reported)
    (hfetch : fetchDbfsManifest decode uri config env cache fuel = some fetch)
    (hwritten : .metadata metadata ∈ fetch.writes) :
    metadata.remoteModifiedMs = some reported := by
  obtain ⟨before, buffer, hbefore, _, hstore⟩ := fetch_stored hfetch hwritten
  rw [hstore] at hwritten
  rcases store_cases hwritten with hbody | hmeta
  · cases hbody
  · rw [CacheWrite.metadata.inj hmeta, beforeRead_recorded hstatus hbefore]
    exact recordModified_reported hreported cache.readMeta

/-- The copy that a first fetch leaves behind, with the time one recorded. -/
def firstCopy : Cache := (stored [1, 2, 3, 4] 1).after Cache.empty

end Changes
end DbfsManifest
end DbtNova
