import DbtNova.ManifestCache

/-!
# Fetching a manifest over HTTP

The environment answers each attempt of a fetch. What the fetch decides follows
the source from the freshness check to the two writes. The server of a content
is an environment that answers as a conditional request asks for.
-/
namespace DbtNova.HttpManifest
open ManifestCache

def remoteFetchMaxAttempts : ℕ := 3

/-- The conditional headers of a request. -/
structure Validators where
  ifNoneMatch : Option String
  ifModifiedSince : Option String
  deriving DecidableEq, Repr

def sentValidators (metadata : CacheMeta) : Validators := ⟨metadata.etag, metadata.lastModified⟩

structure HttpResponse where
  status : ℕ
  reason : String
  contentLength : Option ℕ
  etag : Option String
  lastModified : Option String
  reads : List (Except String Bytes)

structure Attempt where
  elapsed : ℕ
  send : Validators → Except String HttpResponse

/-- What the clock, the network and the disk do during one fetch. -/
structure Environment where
  now : ℕ
  clientError : Option String
  attempts : ℕ → Attempt
  storedAt : ℕ
  metadataError : Option String

inductive Sent where
  | timedOut (timeoutSecs : ℕ)
  | answered (response : HttpResponse)
  | failed (lastErr : Option String)

def sendAttempts (config : Config) (env : Environment) (validators : Validators)
    (lastErr : Option String) : List ℕ → Sent
  | [] => .failed lastErr
  | attempt :: rest =>
      match deadlineExpired config.fetchTimeoutSecs (env.attempts attempt).elapsed with
      | some timeoutSecs => .timedOut timeoutSecs
      | none =>
          match (env.attempts attempt).send validators with
          | .ok response => .answered response
          | .error error => sendAttempts config env validators (some error) rest

def attemptNumbers : List ℕ := (List.range remoteFetchMaxAttempts).map (· + 1)

def isSuccess (status : ℕ) : Bool := decide (200 ≤ status ∧ status < 300)

/-- The last step of a fetch, whose failure leaves the metadata as it was. -/
def finish (url : String) (cached : Bool) (env : Environment) (metadata : CacheMeta)
    (written : List CacheWrite) : Fetch :=
  match env.metadataError with
  | some error => ⟨.error (.ioError error), written⟩
  | none => ⟨.ok ⟨url, cached⟩, written ++ [.metadata metadata]⟩

def overLimit (config : Config) (response : HttpResponse) : Option ℕ :=
  response.contentLength.filter fun len => decide (0 < config.maxBytes ∧ config.maxBytes < len)

def receiveBody (url : String) (config : Config) (env : Environment) (cache : Cache)
    (metadata : CacheMeta) (response : HttpResponse) : Fetch :=
  match writeLimitedReader config.maxBytes [] response.reads with
  | .error (.limitExceeded _ max) =>
      fallBack cache url s!"Manifest fetch exceeded size limit (> {max} bytes)"
  | .error (.io error) => fallBack cache url s!"Manifest fetch failed: {error}"
  | .ok body =>
      let received : CacheMeta :=
        { metadata with
          sourceUri := url, fetchedAtMs := env.storedAt, etag := response.etag,
          lastModified := response.lastModified }
      finish url false env received [.body body]

def handleResponse (url : String) (config : Config) (env : Environment) (cache : Cache)
    (metadata : CacheMeta) (response : HttpResponse) : Fetch :=
  if response.status = 304 ∧ cache.body.isSome then
    finish url true env { metadata with fetchedAtMs := env.storedAt } []
  else if ¬ isSuccess response.status then
    fallBack cache url s!"Manifest fetch failed (HTTP {response.status} {response.reason})"
  else
    match overLimit config response with
    | some len =>
        fallBack cache url s!"Manifest fetch exceeded size limit ({len} > {config.maxBytes})"
    | none => receiveBody url config env cache metadata response

def fetchHttpManifest (url : String) (config : Config) (env : Environment) (cache : Cache) :
    Fetch :=
  if cache.body.isSome && isCacheFresh cache.readMeta env.now config.refreshSecs then
    servedFromCache url
  else
    match env.clientError with
    | some error => failed s!"HTTP client init failed: {error}"
    | none =>
        match sendAttempts config env (sentValidators cache.readMeta) none attemptNumbers with
        | .timedOut timeoutSecs =>
            fallBack cache url s!"Manifest fetch timed out after {timeoutSecs}s"
        | .failed lastErr =>
            let error := lastErr.getD "unknown error"
            fallBack cache url s!"Manifest fetch failed: {error}"
        | .answered response => handleResponse url config env cache cache.readMeta response

/-- The copy on disk is returned without asking the server. -/
def ServedFresh (config : Config) (env : Environment) (cache : Cache) : Prop :=
  cache.body.isSome ∧ isCacheFresh cache.readMeta env.now config.refreshSecs = true

/-! The server. -/

/-- A version of the file with the validators that the server gives out for it. -/
structure Content where
  body : Bytes
  etag : Option String
  lastModified : Option String
  deriving DecidableEq, Repr

/-- A date counts only where no tag is sent. -/
def Content.matchedBy (content : Content) (validators : Validators) : Bool :=
  match validators.ifNoneMatch with
  | some etag => content.etag == some etag
  | none =>
      match validators.ifModifiedSince with
      | some lastModified => content.lastModified == some lastModified
      | none => false

/-- The whole content, in any pieces and with or without a stated length. -/
structure Content.SentBy (content : Content) (response : HttpResponse) : Prop where
  status : response.status = 200
  etag : response.etag = content.etag
  lastModified : response.lastModified = content.lastModified
  length : ∀ len ∈ response.contentLength, len = content.body.length
  reads : ∃ pieces : List Bytes, (∀ piece ∈ pieces, piece ≠ []) ∧
    pieces.flatten = content.body ∧ response.reads = pieces.map .ok

def Content.Answers (content : Content) (validators : Validators) (response : HttpResponse) :
    Prop :=
  if content.matchedBy validators then response.status = 304 else content.SentBy response

/-- Every request is answered for the content, the first one in time. -/
structure Serves (content : Content) (config : Config) (env : Environment) : Prop where
  client : env.clientError = none
  inTime : deadlineExpired config.fetchTimeoutSecs (env.attempts 1).elapsed = none
  answers : ∀ attempt validators, ∃ response,
    (env.attempts attempt).send validators = .ok response ∧ content.Answers validators response
  stored : env.metadataError = none

/-- The fetch succeeds and the local file is the content. -/
def Converges (content : Content) (url : String) (config : Config) (env : Environment)
    (cache : Cache) : Prop :=
  (∃ resolution, (fetchHttpManifest url config env cache).result = .ok resolution) ∧
    ((fetchHttpManifest url config env cache).after cache).body = some content.body

section Responses
variable {content : Content} (url : String) {config : Config} {env : Environment} (cache : Cache)
  {response : HttpResponse}

theorem finish_after (hstored : env.metadataError = none) (cached : Bool) (metadata : CacheMeta)
    (written : List CacheWrite) :
    (finish url cached env metadata written).result = .ok ⟨url, cached⟩ ∧
      (finish url cached env metadata written).after cache =
        (cache.writeAll written).write (.metadata metadata) := by
  unfold finish
  rw [hstored]
  refine ⟨rfl, ?_⟩
  simp [Fetch.after, Cache.writeAll, List.foldl_append]

theorem finish_body (cached : Bool) (metadata : CacheMeta) (written : List CacheWrite) :
    ((finish url cached env metadata written).after cache).body =
      (cache.writeAll written).body := by
  unfold finish
  cases env.metadataError with
  | some error => rfl
  | none => simp [Fetch.after, Cache.writeAll, List.foldl_append]

theorem Content.SentBy.received (hsent : content.SentBy response)
    (hlimit : WithinLimit config.maxBytes content.body) :
    writeLimitedReader config.maxBytes [] response.reads = .ok content.body := by
  obtain ⟨pieces, hpieces, hbody, hreads⟩ := hsent.reads
  rw [hreads, ← hbody]
  rw [← hbody] at hlimit
  exact writeLimitedReader_whole hpieces [] hlimit

theorem Content.SentBy.overLimit (hsent : content.SentBy response)
    (hlimit : WithinLimit config.maxBytes content.body) : overLimit config response = none := by
  unfold HttpManifest.overLimit
  apply Option.filter_eq_none_iff.mpr
  intro len hlen
  rw [hsent.length len hlen]
  unfold WithinLimit at hlimit
  simp only [decide_eq_true_eq]
  omega

/-- A content that is sent whole replaces both files. -/
theorem handleResponse_sent (hsent : content.SentBy response)
    (hlimit : WithinLimit config.maxBytes content.body) (hstored : env.metadataError = none) :
    (handleResponse url config env cache cache.readMeta response).result = .ok ⟨url, false⟩ ∧
      (handleResponse url config env cache cache.readMeta response).after cache =
        ⟨some content.body, some
          { cache.readMeta with
            sourceUri := url, fetchedAtMs := env.storedAt, etag := content.etag,
            lastModified := content.lastModified }⟩ := by
  have hnot : ¬ (response.status = 304 ∧ cache.body.isSome) := by
    rw [hsent.status]
    simp
  have hsuccess : ¬ ¬ isSuccess response.status := by
    rw [hsent.status]
    decide
  unfold handleResponse
  rw [if_neg hnot, if_neg hsuccess, hsent.overLimit hlimit]
  simp only [receiveBody, hsent.received hlimit, hsent.etag, hsent.lastModified]
  obtain ⟨hresult, hafter⟩ := finish_after url cache hstored false
    { cache.readMeta with
      sourceUri := url, fetchedAtMs := env.storedAt, etag := content.etag,
      lastModified := content.lastModified } [.body content.body]
  exact ⟨hresult, hafter⟩

end Responses
section Fetches
variable {content : Content} (url : String) {config : Config} {env : Environment} (cache : Cache)
  {response : HttpResponse}

/-- An answer that the content has not changed is of use only beside a body. -/
theorem handleResponse_notModified (hstatus : response.status = 304)
    (hstored : env.metadataError = none) :
    ((∃ resolution,
        (handleResponse url config env cache cache.readMeta response).result = .ok resolution) ↔
      cache.body.isSome) ∧
      ((handleResponse url config env cache cache.readMeta response).after cache).body =
        cache.body := by
  unfold handleResponse
  by_cases hbody : cache.body.isSome
  · rw [if_pos ⟨hstatus, hbody⟩, finish_body url cache]
    have hok := (finish_after url cache hstored true
      { cache.readMeta with fetchedAtMs := env.storedAt } []).1
    exact ⟨iff_of_true ⟨_, hok⟩ hbody, rfl⟩
  · have hsuccess : ¬ isSuccess response.status := by
      rw [hstatus]
      decide
    have hfall (message : String) : fallBack cache url message = failed message := by
      unfold fallBack
      rw [if_neg hbody]
    rw [if_neg (fun h => hbody h.2), if_pos hsuccess, hfall]
    refine ⟨iff_of_false ?_ hbody, rfl⟩
    rintro ⟨resolution, h⟩
    cases h

/-- A stale copy sends its validators, and the first answer decides. -/
theorem fetchHttpManifest_answered (hserves : Serves content config env)
    (hstale : ¬ ServedFresh config env cache) :
    ∃ response, content.Answers (sentValidators cache.readMeta) response ∧
      fetchHttpManifest url config env cache =
        handleResponse url config env cache cache.readMeta response := by
  obtain ⟨response, hsend, hanswers⟩ := hserves.answers 1 (sentValidators cache.readMeta)
  refine ⟨response, hanswers, ?_⟩
  have hnotFresh :
      ¬ (cache.body.isSome && isCacheFresh cache.readMeta env.now config.refreshSecs) = true := by
    rw [Bool.and_eq_true]
    exact hstale
  have hsent : sendAttempts config env (sentValidators cache.readMeta) none attemptNumbers =
      .answered response := by
    have hnumbers : attemptNumbers = 1 :: [2, 3] := rfl
    rw [hnumbers, sendAttempts, hserves.inTime]
    simp only [hsend]
  unfold fetchHttpManifest
  rw [if_neg hnotFresh, hserves.client]
  simp only [hsent]

theorem converges_iff (hserves : Serves content config env)
    (hlimit : WithinLimit config.maxBytes content.body)
    (hstale : ¬ ServedFresh config env cache) :
    Converges content url config env cache ↔
      (content.matchedBy (sentValidators cache.readMeta) = true →
        cache.body = some content.body) := by
  obtain ⟨response, hanswers, hfetch⟩ :=
    fetchHttpManifest_answered url cache hserves hstale
  unfold Content.Answers at hanswers
  unfold Converges
  rw [hfetch]
  by_cases hmatch : content.matchedBy (sentValidators cache.readMeta) = true
  · rw [if_pos hmatch] at hanswers
    obtain ⟨hok, hbody⟩ :=
      handleResponse_notModified url cache hanswers hserves.stored
    rw [hok, hbody]
    constructor
    · intro h _
      exact h.2
    · intro h
      rw [h hmatch]
      exact ⟨rfl, rfl⟩
  · rw [if_neg hmatch] at hanswers
    obtain ⟨hok, hafter⟩ :=
      handleResponse_sent url cache hanswers hlimit hserves.stored
    rw [hok, hafter]
    exact iff_of_true ⟨⟨_, rfl⟩, rfl⟩ (fun h => absurd h hmatch)

/-- The answer of a fetch that goes to the server. -/
def Answered (config : Config) (env : Environment) (cache : Cache) (response : HttpResponse) :
    Prop :=
  sendAttempts config env (sentValidators cache.readMeta) none attemptNumbers =
    .answered response

/-- A body arrives whole and within the limit. -/
def Received (config : Config) (env : Environment) (cache : Cache) (response : HttpResponse)
    (body : Bytes) : Prop :=
  Answered config env cache response ∧ isSuccess response.status = true ∧
    overLimit config response = none ∧
    writeLimitedReader config.maxBytes [] response.reads = .ok body

/-- The server confirms the body on disk. -/
def Revalidated (config : Config) (env : Environment) (cache : Cache) : Prop :=
  ∃ response, Answered config env cache response ∧ response.status = 304 ∧ cache.body.isSome

/-- All that a fetch can do to the two files: nothing, new metadata beside a confirmed
body, or a received body and then, when the disk allows it, its metadata. -/
def Outcome (config : Config) (env : Environment) (cache : Cache) (writes : List CacheWrite) :
    Prop :=
  writes = [] ∨
    (Revalidated config env cache ∧ ∃ metadata,
      sentValidators metadata = sentValidators cache.readMeta ∧ writes = [.metadata metadata]) ∨
    ∃ response body, Received config env cache response body ∧
      ((env.metadataError ≠ none ∧ writes = [.body body]) ∨
        ∃ metadata, sentValidators metadata = ⟨response.etag, response.lastModified⟩ ∧
          writes = [.body body, .metadata metadata])

theorem receiveBody_outcome (hanswered : Answered config env cache response)
    (hsuccess : isSuccess response.status = true) (hover : overLimit config response = none) :
    Outcome config env cache
      (receiveBody url config env cache cache.readMeta response).writes := by
  unfold receiveBody
  cases hread : writeLimitedReader config.maxBytes [] response.reads with
  | error error => cases error <;> exact .inl (fallBack_writes _ _ _)
  | ok body =>
      refine .inr (.inr ⟨response, body, ⟨hanswered, hsuccess, hover, hread⟩, ?_⟩)
      unfold finish
      cases hstored : env.metadataError with
      | some error => exact .inl ⟨Option.some_ne_none error, rfl⟩
      | none => exact .inr ⟨_, rfl, rfl⟩

theorem handleResponse_outcome (hanswered : Answered config env cache response) :
    Outcome config env cache
      (handleResponse url config env cache cache.readMeta response).writes := by
  unfold handleResponse
  by_cases hkept : response.status = 304 ∧ cache.body.isSome
  · rw [if_pos hkept]
    unfold finish
    cases hstored : env.metadataError with
    | some error => exact .inl rfl
    | none =>
        exact .inr (.inl ⟨⟨response, hanswered, hkept⟩,
          { cache.readMeta with fetchedAtMs := env.storedAt }, rfl, rfl⟩)
  · rw [if_neg hkept]
    by_cases hsuccess : isSuccess response.status = true
    · rw [if_neg (not_not_intro hsuccess)]
      cases hover : overLimit config response with
      | some len => exact .inl (fallBack_writes _ _ _)
      | none => exact receiveBody_outcome url cache hanswered hsuccess hover
    · rw [if_pos hsuccess]
      exact .inl (fallBack_writes _ _ _)

theorem fetchHttpManifest_outcome :
    Outcome config env cache (fetchHttpManifest url config env cache).writes := by
  unfold fetchHttpManifest
  split
  · exact .inl rfl
  · cases env.clientError with
    | some error => exact .inl rfl
    | none =>
        cases hsent : sendAttempts config env (sentValidators cache.readMeta) none
            attemptNumbers with
        | timedOut timeoutSecs => exact .inl (fallBack_writes _ _ _)
        | failed lastErr => exact .inl (fallBack_writes _ _ _)
        | answered response => exact handleResponse_outcome url cache hsent

/-- A fetch that neither receives a body nor has one confirmed changes nothing. -/
theorem unreceived_unchanged
    (hreceived : ¬ ∃ response body, Received config env cache response body)
    (hrevalidated : ¬ Revalidated config env cache) :
    (fetchHttpManifest url config env cache).after cache = cache := by
  unfold Fetch.after
  rcases fetchHttpManifest_outcome url cache with hnone | hkept | ⟨response, body, h, _⟩
  · rw [hnone, Cache.writeAll_nil]
  · exact absurd hkept.1 hrevalidated
  · exact absurd ⟨response, body, h⟩ hreceived

end Fetches

/-! A cache over time. -/

inductive Event where
  | fetch (config : Config) (env : Environment)
  | crash (config : Config) (env : Environment) (done : ℕ)
  | bodyDeleted
  | metadataDeleted

def Event.apply (url : String) (cache : Cache) : Event → Cache
  | .fetch config env => (fetchHttpManifest url config env cache).after cache
  | .crash config env done => (fetchHttpManifest url config env cache).crashed done cache
  | .bodyDeleted => { cache with body := none }
  | .metadataDeleted => { cache with metadata := none }

def reached (url : String) (history : List Event) : Cache :=
  history.foldl (Event.apply url) Cache.empty

section Runs
variable {versions : Set Content} {url : String} {config : Config} {env : Environment}
  {cache : Cache}

/-- The validators of one version are never those of another body. -/
def Identified (versions : Set Content) : Prop :=
  ∀ a ∈ versions, ∀ b ∈ versions,
    a.matchedBy ⟨b.etag, b.lastModified⟩ = true → a.body = b.body

/-- The kept validators, if any, belong to the kept body. -/
def Paired (versions : Set Content) (cache : Cache) : Prop :=
  sentValidators cache.readMeta = ⟨none, none⟩ ∨
    ∃ content ∈ versions, cache.body = some content.body ∧
      sentValidators cache.readMeta = ⟨content.etag, content.lastModified⟩

/-- What the server sends whole is a version under its own validators. -/
def Delivers (versions : Set Content) (config : Config) (env : Environment) : Prop :=
  ∀ cache response body, Received config env cache response body →
    ∃ content ∈ versions, content.body = body ∧
      content.etag = response.etag ∧ content.lastModified = response.lastModified

/-- No step separates a body from its metadata. -/
def Event.Intact (versions : Set Content) : Event → Prop
  | .fetch config env => Delivers versions config env ∧ env.metadataError = none
  | .crash config env done =>
      Delivers versions config env ∧ env.metadataError = none ∧ done ≠ 1
  | .bodyDeleted => False
  | .metadataDeleted => True

theorem paired_after (hdelivers : Delivers versions config env)
    (hstored : env.metadataError = none) (h : Paired versions cache) :
    Paired versions ((fetchHttpManifest url config env cache).after cache) := by
  unfold Fetch.after
  rcases fetchHttpManifest_outcome url cache with
    hnone | ⟨_, metadata, hsame, hwrites⟩ | ⟨response, body, hreceived, hwritten⟩
  · rw [hnone]
    exact h
  · rw [hwrites]
    unfold Paired at h
    rw [← hsame] at h
    exact h
  · rcases hwritten with ⟨herror, _⟩ | ⟨metadata, hsame, hwrites⟩
    · exact absurd hstored herror
    · rw [hwrites]
      obtain ⟨content, hmem, hbody, hetag, hmodified⟩ := hdelivers cache response body hreceived
      refine .inr ⟨content, hmem, ?_, ?_⟩
      · rw [hbody]
        rfl
      · rw [hetag, hmodified, ← hsame]
        rfl

/-- A fetch has at most two writes, so a crash that is not between them is a
fetch or no fetch. -/
theorem crashed_cases {done : ℕ} (hdone : done ≠ 1) :
    (fetchHttpManifest url config env cache).crashed done cache = cache ∨
      (fetchHttpManifest url config env cache).crashed done cache =
        (fetchHttpManifest url config env cache).after cache := by
  have hlength : (fetchHttpManifest url config env cache).writes.length ≤ 2 := by
    rcases fetchHttpManifest_outcome url cache with
      hnone | ⟨_, metadata, _, hwrites⟩ | ⟨_, _, _, ⟨_, hwrites⟩ | ⟨_, _, hwrites⟩⟩
    · rw [hnone]
      exact Nat.zero_le 2
    all_goals
      rw [hwrites]
      simp
  unfold Fetch.crashed Fetch.after
  cases done with
  | zero => exact .inl rfl
  | succ done =>
      rw [List.take_of_length_le (by omega)]
      exact .inr rfl

theorem Event.Intact.paired {event : Event} (hevent : event.Intact versions)
    (h : Paired versions cache) : Paired versions (event.apply url cache) := by
  cases event with
  | fetch config env => exact paired_after hevent.1 hevent.2 h
  | crash config env done =>
      have hcases : (Event.crash config env done).apply url cache = cache ∨
          (Event.crash config env done).apply url cache =
            (fetchHttpManifest url config env cache).after cache := crashed_cases hevent.2.2
      rcases hcases with hsame | hafter
      · rw [hsame]
        exact h
      · rw [hafter]
        exact paired_after hevent.1 hevent.2.1 h
  | bodyDeleted => exact hevent.elim
  | metadataDeleted => exact .inl rfl

theorem reached_paired {history : List Event}
    (hhistory : ∀ event ∈ history, event.Intact versions) :
    Paired versions (reached url history) := by
  unfold reached
  have hempty : Paired versions Cache.empty := .inl rfl
  revert hempty
  generalize Cache.empty = cache
  induction history generalizing cache with
  | nil => exact id
  | cons event history ih =>
      intro h
      have hevent := hhistory event List.mem_cons_self
      exact ih (fun event h => hhistory event (List.mem_cons_of_mem _ h)) _ (hevent.paired h)

/-- After a history that separates no body from its metadata, every fetch of a copy
that is not fresh brings the content. -/
theorem intact_converges (hidentified : Identified versions) {history : List Event}
    (hhistory : ∀ event ∈ history, event.Intact versions) {content : Content}
    (hcontent : content ∈ versions) (hserves : Serves content config env)
    (hlimit : WithinLimit config.maxBytes content.body)
    (hstale : ¬ ServedFresh config env (reached url history)) :
    Converges content url config env (reached url history) := by
  apply (converges_iff url _ hserves hlimit hstale).mpr
  intro hmatch
  rcases reached_paired hhistory with hnone | ⟨kept, hkept, hbody, hsent⟩
  · rw [hnone] at hmatch
    cases hmatch
  · rw [hsent] at hmatch
    rw [hbody, hidentified content hcontent kept hkept hmatch]

end Runs

/-- A fetch of a copy that is not fresh brings the server's content exactly when the
content, if the kept validators are its own, is also the kept body. Nothing changes
unless a body arrives whole or is confirmed. -/
theorem http_manifest_converges_iff (url : String) (history : List Event) :
    (∀ content config env, Serves content config env →
      WithinLimit config.maxBytes content.body → ¬ ServedFresh config env (reached url history) →
      (Converges content url config env (reached url history) ↔
        (content.matchedBy (sentValidators (reached url history).readMeta) = true →
          (reached url history).body = some content.body))) ∧
    ∀ config env,
      (¬ ∃ response body, Received config env (reached url history) response body) →
      ¬ Revalidated config env (reached url history) →
      (fetchHttpManifest url config env (reached url history)).after (reached url history) =
        reached url history :=
  ⟨fun _ _ _ hserves hlimit hstale => converges_iff url _ hserves hlimit hstale,
    fun _ _ hreceived hrevalidated => unreceived_unchanged url _ hreceived hrevalidated⟩

/-- A server of one content, asked at a given time. -/
def serverOf (content : Content) (now : ℕ) : Environment where
  now := now
  clientError := none
  attempts := fun _ =>
    { elapsed := 0
      send := fun validators =>
        if content.matchedBy validators then .ok ⟨304, "Not Modified", none, none, none, []⟩
        else
          .ok ⟨200, "OK", some content.body.length, content.etag, content.lastModified,
            [.ok content.body]⟩ }
  storedAt := now
  metadataError := none

theorem serverOf_serves {content : Content} (hbody : content.body ≠ []) (config : Config)
    (now : ℕ) : Serves content config (serverOf content now) where
  client := rfl
  inTime := by
    have helapsed : ((serverOf content now).attempts 1).elapsed = 0 := rfl
    unfold deadlineExpired
    rw [helapsed, if_neg (by omega)]
  answers := by
    intro attempt validators
    unfold Content.Answers
    simp only [serverOf]
    by_cases hmatch : content.matchedBy validators = true
    · simp only [hmatch, if_true]
      exact ⟨_, rfl, rfl⟩
    · simp only [hmatch, if_false, Bool.false_eq_true]
      refine ⟨_, rfl, rfl, rfl, rfl, ?_, [content.body], ?_, ?_, rfl⟩
      · intro len hlen
        exact (Option.some.inj hlen).symm
      · intro piece hpiece
        rw [List.mem_singleton.mp hpiece]
        exact hbody
      · rw [List.flatten_singleton]
  stored := rfl

section Instances

def firstVersion : Content := ⟨[1, 2], some "one", none⟩

def secondVersion : Content := ⟨[3], some "two", none⟩

/-- A day after the last fetch. -/
def later : ℕ := 86400000

/-- No request is answered. -/
def unreachable : Environment where
  now := later
  clientError := none
  attempts := fun _ => ⟨0, fun _ => .error "connection refused"⟩
  storedAt := later
  metadataError := none

theorem http_manifest_converges_changed :
    Converges secondVersion "u" hourly (serverOf secondVersion later)
        (reached "u" [.fetch hourly (serverOf firstVersion 0)]) ∧
      (fetchHttpManifest "u" hourly unreachable
          (reached "u" [.fetch hourly (serverOf firstVersion 0)])).after
          (reached "u" [.fetch hourly (serverOf firstVersion 0)]) =
        reached "u" [.fetch hourly (serverOf firstVersion 0)] := by
  have hexact := http_manifest_converges_iff "u" [.fetch hourly (serverOf firstVersion 0)]
  have hfailed (response : HttpResponse) : ¬ Answered hourly unreachable
      (reached "u" [.fetch hourly (serverOf firstVersion 0)]) response := by
    intro h
    cases h
  constructor
  · apply (hexact.1 secondVersion hourly (serverOf secondVersion later)
      (serverOf_serves (by decide) hourly later) (.inl rfl) ?_).mpr
    · intro hmatch
      exact absurd hmatch (by decide)
    · unfold ServedFresh
      decide
  · apply hexact.2 hourly unreachable
    · rintro ⟨response, body, hreceived⟩
      exact hfailed response hreceived.1
    · rintro ⟨response, hanswered, _⟩
      exact hfailed response hanswered

/-- A body deleted beside its metadata is not fetched again, and a body whose metadata
was not written is kept when the server goes back to the version before it. -/
theorem unpaired_files_kept :
    (Serves firstVersion hourly (serverOf firstVersion later) ∧
      ¬ ServedFresh hourly (serverOf firstVersion later)
        (reached "u" [.fetch hourly (serverOf firstVersion 0), .bodyDeleted]) ∧
      ¬ Converges firstVersion "u" hourly (serverOf firstVersion later)
        (reached "u" [.fetch hourly (serverOf firstVersion 0), .bodyDeleted])) ∧
    (Serves firstVersion hourly (serverOf firstVersion (later + later)) ∧
      ¬ ServedFresh hourly (serverOf firstVersion (later + later))
        (reached "u" [.fetch hourly (serverOf firstVersion 0),
          .crash hourly (serverOf secondVersion later) 1]) ∧
      ¬ Converges firstVersion "u" hourly (serverOf firstVersion (later + later))
        (reached "u" [.fetch hourly (serverOf firstVersion 0),
          .crash hourly (serverOf secondVersion later) 1])) := by
  refine ⟨⟨serverOf_serves (by decide) hourly later, ?_, ?_⟩,
    serverOf_serves (by decide) hourly (later + later), ?_, ?_⟩
  · unfold ServedFresh
    decide
  · rintro ⟨_, hbody⟩
    exact absurd hbody (by decide)
  · unfold ServedFresh
    decide
  · rintro ⟨_, hbody⟩
    exact absurd hbody (by decide)

end Instances

end DbtNova.HttpManifest
