import DbtNova.EntityMeta
import DbtNova.Error
import DbtNova.Text
import DbtNova.TransitionSystem

/-!
# The keys of signed tokens

In its JWT mode the server checks the token of each request with keys that it fetched from the
identity provider and keeps in a cache which all requests share. A token that no cached key signed
makes its request fetch the keys again, put them into the cache and check once more. Meanwhile
other requests do the same and the provider may publish other keys at any time.
-/
namespace DbtNova.JwtKeys
open TransitionSystem JsonValue

/-! ## One token -/

inductive Algorithm where
  | hs256 | hs384 | hs512
  | es256 | es384
  | rs256 | rs384 | rs512
  | ps256 | ps384 | ps512
  | edDSA
  deriving DecidableEq, Repr

def Algorithm.fromStr : String → Option Algorithm
  | "HS256" => some .hs256
  | "HS384" => some .hs384
  | "HS512" => some .hs512
  | "ES256" => some .es256
  | "ES384" => some .es384
  | "RS256" => some .rs256
  | "RS384" => some .rs384
  | "RS512" => some .rs512
  | "PS256" => some .ps256
  | "PS384" => some .ps384
  | "PS512" => some .ps512
  | "EdDSA" => some .edDSA
  | _ => none

def isHmacAlgorithm : Algorithm → Bool
  | .hs256 | .hs384 | .hs512 => true
  | _ => false

inductive AlgorithmParameters where
  | ellipticCurve (material : String)
  | rsa (material : String)
  | octetKey (material : String)
  | octetKeyPair (material : String)
  deriving DecidableEq, Repr

inductive PublicKeyUse where
  | signature
  | encryption
  | other (name : String)
  deriving DecidableEq, Repr

inductive KeyOperations where
  | sign | verify | encrypt | decrypt | wrapKey | unwrapKey | deriveKey | deriveBits
  | other (name : String)
  deriving DecidableEq, Repr

/-- `keyAlgorithm` is the text of the algorithm that the key names. -/
structure Jwk where
  keyId : Option String
  publicKeyUse : Option PublicKeyUse
  keyOperations : Option (List KeyOperations)
  keyAlgorithm : Option String
  algorithm : AlgorithmParameters
  deriving DecidableEq, Repr

structure Header where
  alg : Algorithm
  kid : Option String
  deriving DecidableEq, Repr

inductive VerificationError where
  | missingAuthorization
  | malformedAuthorization
  | malformedIdentity
  | missingKeyId
  | unknownKeyId
  | unsupportedAlgorithm
  | invalidSignature
  | staleIdentity
  | invalidToken
  | jwksUnavailable
  deriving DecidableEq, Repr

inductive JwtErrorKind where
  | expiredSignature
  | immatureSignature
  | invalidSignature
  | invalidAlgorithm
  | missingAlgorithm
  | other
  deriving DecidableEq, Repr

structure RequestIdentity where
  subjectHash : String
  deriving DecidableEq, Repr

/-- The libraries that read a token, check it at some time with a key, and hash a text. -/
structure Library where
  Key : Type
  decodeHeader : String → Option Header
  decodingKey : Jwk → Option Key
  decode : ℕ → String → Key → Except JwtErrorKind JsonValue
  sha256Hex : String → String

def okOr {ε : Type*} {α : Type} (found : Option α) (error : ε) : Except ε α :=
  match found with
  | some a => .ok a
  | none => .error error

def ensure {ε : Type*} (holds : Bool) (error : ε) : Except ε Unit :=
  if holds then .ok () else .error error

theorem okOr_eq_ok {ε : Type*} {α : Type} {found : Option α} {error : ε} {a : α} :
    okOr found error = .ok a ↔ found = some a := by
  cases found <;> simp [okOr]

theorem ensure_eq_ok {ε : Type*} {holds : Bool} {error : ε} {u : Unit} :
    ensure holds error = .ok u ↔ holds = true := by
  cases holds <;> simp [ensure]

/-- One value of the list of accepted algorithms. -/
def pushAlgorithm (algorithms : List Algorithm) (value : String) : Result (List Algorithm) :=
  let value := Text.trim value
  if value = "" then .ok algorithms
  else
    match Algorithm.fromStr value with
    | none => .error (.invalidParams
        ("DBT_NOVA_JWT_ALGORITHMS contains unsupported algorithm `" ++ value ++ "`"))
    | some algorithm =>
        if isHmacAlgorithm algorithm then
          .error (.invalidParams ("DBT_NOVA_JWT_ALGORITHMS must use asymmetric algorithms; " ++
            "HS256, HS384, and HS512 are not accepted for hosted JWT mode"))
        else if algorithms.contains algorithm then .ok algorithms
        else .ok (algorithms ++ [algorithm])

def parseJwtAlgorithms (values : List String) : Result (List Algorithm) := do
  let algorithms ← values.foldlM pushAlgorithm []
  if algorithms.isEmpty then
    .error (.invalidParams ("DBT_NOVA_JWT_ALGORITHMS must include at least one accepted " ++
      "algorithm for JWT mode"))
  else .ok algorithms

theorem pushAlgorithm_asymmetric {algorithms pushed : List Algorithm} {value : String}
    (h : pushAlgorithm algorithms value = .ok pushed)
    (hbefore : ∀ alg ∈ algorithms, isHmacAlgorithm alg = false) :
    ∀ alg ∈ pushed, isHmacAlgorithm alg = false := by
  simp only [pushAlgorithm] at h
  split at h
  · cases h
    exact hbefore
  · split at h
    · cases h
    · rename_i algorithm _
      split at h
      · cases h
      · rename_i hhmac
        split at h
        · cases h
          exact hbefore
        · cases h
          intro alg halg
          rcases List.mem_append.mp halg with hmem | hmem
          · exact hbefore alg hmem
          · rw [List.mem_singleton.mp hmem]
            simpa using hhmac

theorem parseJwtAlgorithms_asymmetric {values : List String} {algorithms : List Algorithm}
    (h : parseJwtAlgorithms values = .ok algorithms) :
    ∀ alg ∈ algorithms, isHmacAlgorithm alg = false := by
  have hfold : ∀ (values : List String) (before after : List Algorithm),
      (∀ alg ∈ before, isHmacAlgorithm alg = false) →
        values.foldlM pushAlgorithm before = .ok after →
          ∀ alg ∈ after, isHmacAlgorithm alg = false := by
    intro values
    induction values with
    | nil =>
        intro before after hbefore hafter
        cases hafter
        exact hbefore
    | cons value values ih =>
        intro before after hbefore hafter
        obtain ⟨pushed, hpushed, hrest⟩ := bind_eq_ok.mp hafter
        exact ih pushed after (pushAlgorithm_asymmetric hpushed hbefore) hrest
  obtain ⟨found, hfound, hrest⟩ := bind_eq_ok.mp h
  split at hrest
  · cases hrest
  · cases hrest
    exact hfold values [] algorithms (fun alg hnil => by cases hnil) hfound

/-- A verifier never accepts an algorithm whose key both sides know. -/
structure JwtIdentityVerifier where
  subjectClaim : String
  algorithms : List Algorithm
  asymmetric : ∀ alg ∈ algorithms, isHmacAlgorithm alg = false

def JwtIdentityVerifier.fromConfig (subjectClaim : String) (jwtAlgorithms : List String) :
    Result JwtIdentityVerifier :=
  match h : parseJwtAlgorithms jwtAlgorithms with
  | .error error => .error error
  | .ok algorithms =>
      .ok ⟨Text.trim subjectClaim, algorithms, parseJwtAlgorithms_asymmetric h⟩

def isAsymmetricJwk (jwk : Jwk) : Bool :=
  match jwk.algorithm with
  | .rsa _ | .ellipticCurve _ | .octetKeyPair _ => true
  | .octetKey _ => false

def validateJwksHasAsymmetricKey (jwks : List Jwk) : Bool := jwks.any isAsymmetricJwk

def validateJwkForHeader (jwk : Jwk) (headerAlg : Algorithm) : Except VerificationError Unit := do
  ensure (isAsymmetricJwk jwk) .unsupportedAlgorithm
  ensure (jwk.publicKeyUse.all (· == .signature)) .invalidToken
  ensure (jwk.keyOperations.all (·.contains .verify)) .invalidToken
  match jwk.keyAlgorithm with
  | none => .ok ()
  | some text => do
      let keyAlgorithm ← okOr (Algorithm.fromStr text) .unsupportedAlgorithm
      ensure (keyAlgorithm == headerAlg) .unsupportedAlgorithm

def jwtErrorToVerificationError : JwtErrorKind → VerificationError
  | .expiredSignature | .immatureSignature => .staleIdentity
  | .invalidSignature => .invalidSignature
  | .invalidAlgorithm | .missingAlgorithm => .unsupportedAlgorithm
  | .other => .invalidToken

def cachedJwk (jwks : List Jwk) (kid : String) : Except VerificationError Jwk :=
  okOr (jwks.find? fun jwk => jwk.keyId == some kid) .unknownKeyId

/-- What is left of a text after trimming, unless nothing is. -/
def nonEmptyTrimmed (text : String) : Option String :=
  if Text.trim text = "" then none else some (Text.trim text)

def verifyTokenWithCache (library : Library) (verifier : JwtIdentityVerifier) (jwks : List Jwk)
    (now : ℕ) (token : String) : Except VerificationError RequestIdentity := do
  let header ← okOr (library.decodeHeader token) .malformedAuthorization
  ensure (verifier.algorithms.contains header.alg) .unsupportedAlgorithm
  let kid ← okOr (header.kid.bind nonEmptyTrimmed) .missingKeyId
  let jwk ← cachedJwk jwks kid
  validateJwkForHeader jwk header.alg
  let key ← okOr (library.decodingKey jwk) .invalidToken
  let claims ← (library.decode now token key).mapError jwtErrorToVerificationError
  let subject ← okOr (((claims.get verifier.subjectClaim).bind asStr).bind nonEmptyTrimmed)
    .malformedIdentity
  return ⟨library.sha256Hex subject⟩

def maxAuthorizationHeaderBytes : ℕ := 16 * 1024

def headerValue (value : Option String) (maxBytes : ℕ) : Option String :=
  value.filter fun text => !(Text.trim text = "" || decide (maxBytes < text.utf8ByteSize))

/-- The text before the first blank and the text behind it. -/
def splitOnceBlank (value : List Char) : Option (List Char × List Char) :=
  if value.contains ' ' then
    some (value.takeWhile (· ≠ ' '), (value.dropWhile (· ≠ ' ')).drop 1)
  else none

def bearerToken (authorization : Option String) : Except VerificationError String := do
  let value ← okOr (headerValue authorization maxAuthorizationHeaderBytes) .missingAuthorization
  let parts ← okOr (splitOnceBlank value.toList) .malformedAuthorization
  ensure (Text.eqIgnoreAsciiCase (String.ofList parts.1) "Bearer") .malformedAuthorization
  let token := Text.trimChars parts.2
  ensure (!(token.isEmpty || token.any Text.isWhitespace)) .malformedAuthorization
  return String.ofList token

/-! ## What an accepted token says -/

/-- The identity is that of a subject in claims which a published key signed. -/
structure Justified (library : Library) (verifier : JwtIdentityVerifier) (jwks : List Jwk)
    (now : ℕ) (token : String) (identity : RequestIdentity) where
  header : Header
  jwk : Jwk
  key : library.Key
  claims : JsonValue
  subject : String
  decoded : library.decodeHeader token = some header
  allowed : header.alg ∈ verifier.algorithms
  published : jwk ∈ jwks
  named : jwk.keyId = header.kid.map Text.trim
  checked : validateJwkForHeader jwk header.alg = .ok ()
  decoding : library.decodingKey jwk = some key
  signed : library.decode now token key = .ok claims
  claimed : (claims.get verifier.subjectClaim).bind asStr = some subject
  present : Text.trim subject ≠ ""
  hashed : identity.subjectHash = library.sha256Hex (Text.trim subject)

section Tokens
variable {library : Library} {verifier : JwtIdentityVerifier} {jwks : List Jwk} {now : ℕ}
  {token : String} {identity : RequestIdentity}

theorem nonEmptyTrimmed_eq_some {text trimmed : String} :
    nonEmptyTrimmed text = some trimmed ↔ Text.trim text ≠ "" ∧ trimmed = Text.trim text := by
  unfold nonEmptyTrimmed
  split
  · rename_i hempty
    simp [hempty]
  · rename_i hne
    simp [hne, eq_comm]

theorem cachedJwk_eq_ok {kid : String} {jwk : Jwk} (h : cachedJwk jwks kid = .ok jwk) :
    jwk ∈ jwks ∧ jwk.keyId = some kid := by
  have hfind := okOr_eq_ok.mp h
  have hkid := List.find?_some hfind
  exact ⟨List.mem_of_find?_eq_some hfind, by simpa using hkid⟩

theorem mapError_eq_ok {ε ε' α : Type} {f : ε → ε'} {result : Except ε α} {a : α} :
    result.mapError f = .ok a ↔ result = .ok a := by
  cases result <;> simp [Except.mapError]

theorem justified_of_ok (h : verifyTokenWithCache library verifier jwks now token = .ok identity) :
    Nonempty (Justified library verifier jwks now token identity) := by
  obtain ⟨header, hheader, h⟩ := bind_eq_ok.mp h
  obtain ⟨⟨⟩, hallowed, h⟩ := bind_eq_ok.mp h
  obtain ⟨kid, hkid, h⟩ := bind_eq_ok.mp h
  obtain ⟨jwk, hjwk, h⟩ := bind_eq_ok.mp h
  obtain ⟨⟨⟩, hchecked, h⟩ := bind_eq_ok.mp h
  obtain ⟨key, hkey, h⟩ := bind_eq_ok.mp h
  obtain ⟨claims, hclaims, h⟩ := bind_eq_ok.mp h
  obtain ⟨subject, hsubject, h⟩ := bind_eq_ok.mp h
  cases h
  obtain ⟨name, hname, htrimmed⟩ := Option.bind_eq_some_iff.mp (okOr_eq_ok.mp hkid)
  obtain ⟨hpublished, hnamed⟩ := cachedJwk_eq_ok hjwk
  obtain ⟨claimed, hclaimed, hhashed⟩ := Option.bind_eq_some_iff.mp (okOr_eq_ok.mp hsubject)
  obtain ⟨hpresent, rfl⟩ := nonEmptyTrimmed_eq_some.mp hhashed
  obtain ⟨-, rfl⟩ := nonEmptyTrimmed_eq_some.mp htrimmed
  exact ⟨{ header, jwk, key, claims, subject := claimed
           decoded := okOr_eq_ok.mp hheader
           allowed := List.contains_iff_mem.mp (ensure_eq_ok.mp hallowed)
           published := hpublished
           named := by rw [hnamed, hname, Option.map_some]
           checked := hchecked
           decoding := okOr_eq_ok.mp hkey
           signed := mapError_eq_ok.mp hclaims
           claimed := hclaimed
           present := hpresent
           hashed := rfl }⟩

/-- The key that signed it is none that the server could sign with. -/
theorem Justified.asymmetric (h : Justified library verifier jwks now token identity) :
    isAsymmetricJwk h.jwk = true ∧ isHmacAlgorithm h.header.alg = false := by
  obtain ⟨⟨⟩, hasymmetric, -⟩ := bind_eq_ok.mp h.checked
  exact ⟨ensure_eq_ok.mp hasymmetric, verifier.asymmetric _ h.allowed⟩

end Tokens

/-! ## All requests -/

/-- `cacheVersion` counts the key sets that the provider published before the cached one. It is
there to tell them apart and no step looks at it. -/
structure Shared where
  clock : ℕ
  published : List (List Jwk)
  cache : List Jwk
  cacheVersion : ℕ
  fetches : ℕ
  deriving DecidableEq, Repr

/-- Where a request stands. `since` is the version that was current when it came. -/
inductive Phase where
  | arrived (authorization : Option String) (since : ℕ)
  | fetching (token : String) (since : ℕ)
  | fetched (token : String) (since version : ℕ) (jwks : List Jwk)
  | stored (token : String) (since : ℕ)
  | judged (token : String) (since : ℕ) (refreshed : Bool) (version now : ℕ)
      (outcome : Except VerificationError RequestIdentity)
  | refused (error : VerificationError)
  | dropped

inductive Act where
  | verify
  | reply
  | fail
  | store
  | drop
  deriving DecidableEq, Repr

/-- Time passes, the provider publishes keys, a request comes in, or a request takes a step. -/
inductive Move where
  | tick (now : ℕ)
  | publish (jwks : List Jwk)
  | arrive (authorization : Option String)
  | request (i : ℕ) (act : Act)
  deriving DecidableEq, Repr

structure State where
  shared : Shared
  calls : List Phase

def Shared.current (s : Shared) : ℕ := s.published.length - 1

/-- Whether the answer makes a request fetch the keys. -/
def refreshes : Except VerificationError RequestIdentity → Bool
  | .error .unknownKeyId | .error .invalidSignature => true
  | _ => false

section Steps
variable (library : Library) (verifier : JwtIdentityVerifier)

def Shared.verify (s : Shared) (token : String) : Except VerificationError RequestIdentity :=
  verifyTokenWithCache library verifier s.cache s.clock token

def advance (s : Shared) : Phase → Act → Option (Shared × Phase)
  | .arrived authorization since, .verify =>
      match bearerToken authorization with
      | .error error => some (s, .refused error)
      | .ok token =>
          if refreshes (s.verify library verifier token) then
            some ({ s with fetches := s.fetches + 1 }, .fetching token since)
          else
            some (s, .judged token since false s.cacheVersion s.clock
              (s.verify library verifier token))
  | .fetching token since, .reply =>
      s.published.getLast?.map fun jwks => (s, .fetched token since s.current jwks)
  | .fetching _ _, .fail => some (s, .refused .jwksUnavailable)
  | .fetched token since version jwks, .store =>
      if validateJwksHasAsymmetricKey jwks then
        some ({ s with cache := jwks, cacheVersion := version }, .stored token since)
      else some (s, .refused .jwksUnavailable)
  | .stored token since, .verify =>
      some (s, .judged token since true s.cacheVersion s.clock (s.verify library verifier token))
  | .arrived _ _, .drop | .fetching _ _, .drop | .fetched _ _ _ _, .drop => some (s, .dropped)
  | _, _ => none

def step (s : State) : Move → Option State
  | .tick now => some { s with shared := { s.shared with clock := now } }
  | .publish jwks =>
      some { s with shared := { s.shared with published := s.shared.published ++ [jwks] } }
  | .arrive authorization =>
      some { s with calls := s.calls ++ [.arrived authorization s.shared.current] }
  | .request i act =>
      match s.calls[i]? with
      | none => none
      | some phase =>
          (advance library verifier s.shared phase act).map fun next =>
            ⟨next.1, s.calls.set i next.2⟩

/-- The server starts with keys that it fetched and found good. -/
def start (jwks : List Jwk) (clock : ℕ) : Option State :=
  if validateJwksHasAsymmetricKey jwks then some ⟨⟨clock, [jwks], jwks, 0, 0⟩, []⟩ else none

end Steps

section Requests
variable {library : Library} {verifier : JwtIdentityVerifier} {s t : State} {shared shared' : Shared}
  {phase phase' : Phase} {act : Act} {move : Move} {moves : List Move} {jwks : List Jwk} {clock : ℕ}

/-- What a request does to the keys and to itself. -/
inductive RequestStep (library : Library) (verifier : JwtIdentityVerifier) (s : Shared) :
    Phase → Act → Shared → Phase → Prop where
  | noToken (authorization : Option String) (since : ℕ) (error : VerificationError) :
      RequestStep library verifier s (.arrived authorization since) .verify s (.refused error)
  | fetch (authorization : Option String) (since : ℕ) (token : String) :
      RequestStep library verifier s (.arrived authorization since) .verify
        { s with fetches := s.fetches + 1 } (.fetching token since)
  | first (authorization : Option String) (since : ℕ) (token : String) :
      RequestStep library verifier s (.arrived authorization since) .verify s
        (.judged token since false s.cacheVersion s.clock (s.verify library verifier token))
  | reply (token : String) (since : ℕ) (jwks : List Jwk) (h : s.published.getLast? = some jwks) :
      RequestStep library verifier s (.fetching token since) .reply s
        (.fetched token since s.current jwks)
  | fail (token : String) (since : ℕ) :
      RequestStep library verifier s (.fetching token since) .fail s (.refused .jwksUnavailable)
  | store (token : String) (since version : ℕ) (jwks : List Jwk)
      (h : validateJwksHasAsymmetricKey jwks = true) :
      RequestStep library verifier s (.fetched token since version jwks) .store
        { s with cache := jwks, cacheVersion := version } (.stored token since)
  | unusable (token : String) (since version : ℕ) (jwks : List Jwk)
      (h : validateJwksHasAsymmetricKey jwks = false) :
      RequestStep library verifier s (.fetched token since version jwks) .store s
        (.refused .jwksUnavailable)
  | second (token : String) (since : ℕ) :
      RequestStep library verifier s (.stored token since) .verify s
        (.judged token since true s.cacheVersion s.clock (s.verify library verifier token))
  | drop (phase : Phase) : RequestStep library verifier s phase .drop s .dropped

theorem advance_cases (h : advance library verifier shared phase act = some (shared', phase')) :
    RequestStep library verifier shared phase act shared' phase' := by
  cases phase with
  | arrived authorization since =>
      cases act <;> try cases h
      case verify =>
          simp only [advance] at h
          split at h
          · cases h
            exact .noToken _ _ _
          · split at h
            · cases h
              exact .fetch _ _ _
            · cases h
              exact .first _ _ _
      case drop.refl => exact .drop _
  | fetching token since =>
      cases act <;> try cases h
      case reply =>
          obtain ⟨jwks, hjwks, hnext⟩ := Option.map_eq_some_iff.mp h
          cases hnext
          exact .reply _ _ _ hjwks
      case fail.refl => exact .fail _ _
      case drop.refl => exact .drop _
  | fetched token since version jwks =>
      cases act <;> try cases h
      case store =>
          simp only [advance] at h
          split at h
          · rename_i husable
            cases h
            exact .store _ _ _ _ husable
          · rename_i hunusable
            cases h
            exact .unusable _ _ _ _ (Bool.eq_false_iff.mpr hunusable)
      case drop.refl => exact .drop _
  | stored token since =>
      cases act <;> cases h
      exact .second _ _
  | judged => cases act <;> cases h
  | refused => cases act <;> cases h
  | dropped => cases act <;> cases h

theorem request_cases {i : ℕ} (h : step library verifier s (.request i act) = some t) :
    ∃ phase shared' phase', s.calls[i]? = some phase ∧
      RequestStep library verifier s.shared phase act shared' phase' ∧
      t = ⟨shared', s.calls.set i phase'⟩ := by
  simp only [step] at h
  split at h
  · cases h
  · rename_i phase hphase
    obtain ⟨next, hnext, ht⟩ := Option.map_eq_some_iff.mp h
    exact ⟨phase, next.1, next.2, hphase, advance_cases hnext, ht.symm⟩

/-! ## The sets in use were published -/

/-- What a request holds came from the provider. -/
def Phase.Consistent (library : Library) (verifier : JwtIdentityVerifier)
    (published : List (List Jwk)) : Phase → Prop
  | .arrived _ since => since < published.length
  | .fetching _ since => since < published.length
  | .fetched _ since version jwks => since ≤ version ∧ published[version]? = some jwks
  | .judged token _ _ version now outcome => ∃ jwks, published[version]? = some jwks ∧
      outcome = verifyTokenWithCache library verifier jwks now token
  | _ => True

structure Consistent (library : Library) (verifier : JwtIdentityVerifier) (s : State) : Prop where
  cached : s.shared.published[s.shared.cacheVersion]? = some s.shared.cache
  usable : validateJwksHasAsymmetricKey s.shared.cache = true
  calls : ∀ call ∈ s.calls, call.Consistent library verifier s.shared.published

theorem getElem?_published {published : List (List Jwk)} {version : ℕ}
    (h : published[version]? = some jwks) (more : List (List Jwk)) :
    (published ++ more)[version]? = some jwks := by
  obtain ⟨hlt, -⟩ := List.getElem?_eq_some_iff.mp h
  rw [List.getElem?_append_left hlt, h]

/-- A published set stays published. -/
theorem Phase.Consistent.publish {published : List (List Jwk)} {call : Phase}
    (h : call.Consistent library verifier published) (more : List (List Jwk)) :
    call.Consistent library verifier (published ++ more) := by
  cases call with
  | arrived authorization since =>
      have hlt : since < published.length := h
      change since < (published ++ more).length
      rw [List.length_append]
      omega
  | fetching token since =>
      have hlt : since < published.length := h
      change since < (published ++ more).length
      rw [List.length_append]
      omega
  | fetched token since version jwks => exact ⟨h.1, getElem?_published h.2 more⟩
  | judged token since refreshed version now outcome =>
      obtain ⟨jwks, hjwks, houtcome⟩ := h
      exact ⟨jwks, getElem?_published hjwks more, houtcome⟩
  | _ => trivial

theorem RequestStep.published (h : RequestStep library verifier shared phase act shared' phase') :
    shared'.published = shared.published := by
  cases h <;> rfl

theorem RequestStep.consistent (h : RequestStep library verifier shared phase act shared' phase')
    (hcached : shared.published[shared.cacheVersion]? = some shared.cache)
    (hphase : phase.Consistent library verifier shared.published) :
    phase'.Consistent library verifier shared'.published := by
  cases h with
  | fetch authorization since token => exact hphase
  | first authorization since token => exact ⟨shared.cache, hcached, rfl⟩
  | reply token since jwks hlast =>
      have hlt : since < shared.published.length := hphase
      refine ⟨?_, ?_⟩
      · unfold Shared.current
        omega
      · rw [Shared.current, ← List.getLast?_eq_getElem?, hlast]
  | second token since => exact ⟨shared.cache, hcached, rfl⟩
  | _ => trivial

theorem consistent_step (h : Consistent library verifier s)
    (hstep : step library verifier s move = some t) : Consistent library verifier t := by
  cases move with
  | tick now =>
      cases hstep
      exact ⟨h.cached, h.usable, h.calls⟩
  | publish jwks =>
      cases hstep
      exact ⟨getElem?_published h.cached [jwks], h.usable,
        fun call hcall => (h.calls call hcall).publish [jwks]⟩
  | arrive authorization =>
      cases hstep
      refine ⟨h.cached, h.usable, fun call hcall => ?_⟩
      rcases List.mem_append.mp hcall with hold | hnew
      · exact h.calls call hold
      · rw [List.mem_singleton.mp hnew]
        obtain ⟨hlt, -⟩ := List.getElem?_eq_some_iff.mp h.cached
        change s.shared.published.length - 1 < s.shared.published.length
        omega
  | request i act =>
      obtain ⟨phase, shared', phase', hphase, hrequest, rfl⟩ := request_cases hstep
      have hconsistent := h.calls phase (List.mem_of_getElem? hphase)
      refine ⟨?_, ?_, fun call hcall => ?_⟩
      · cases hrequest with
        | store token since version jwks husable => exact hconsistent.2
        | _ => exact h.cached
      · cases hrequest with
        | store token since version jwks husable => exact husable
        | _ => exact h.usable
      · rcases List.mem_or_eq_of_mem_set hcall with hold | rfl
        · rw [hrequest.published]
          exact h.calls call hold
        · exact hrequest.consistent h.cached hconsistent

theorem consistent_start (hstart : start jwks clock = some s) : Consistent library verifier s := by
  unfold start at hstart
  split at hstart
  · rename_i husable
    cases hstart
    exact ⟨rfl, husable, fun call hcall => by cases hcall⟩
  · cases hstart

/-- Whoever is let in has a subject in claims that a published key signed, and it is no key that
the server could sign with. -/
theorem accepted_justified {i since version now : ℕ} {token : String} {refreshed : Bool}
    {identity : RequestIdentity} (hstart : start jwks clock = some s)
    (hrun : run (step library verifier) s moves = some t)
    (hcall : t.calls[i]? = some (.judged token since refreshed version now (.ok identity))) :
    ∃ published, t.shared.published[version]? = some published ∧
      ∃ evidence : Justified library verifier published now token identity,
        isAsymmetricJwk evidence.jwk = true ∧ isHmacAlgorithm evidence.header.alg = false := by
  have hconsistent := run_invariant (Consistent library verifier)
    (fun s move t => consistent_step) (consistent_start hstart) hrun
  obtain ⟨published, hpublished, houtcome⟩ :=
    hconsistent.calls _ (List.mem_of_getElem? hcall)
  obtain ⟨evidence⟩ := justified_of_ok houtcome.symm
  exact ⟨published, hpublished, evidence, evidence.asymmetric⟩

end Requests

/-- Knows one token, which the newer of two keys signed. -/
def sampleLibrary : Library where
  Key := String
  decodeHeader token := if token = "h.c.s" then some ⟨.edDSA, some "new"⟩ else none
  decodingKey jwk :=
    match jwk.algorithm with
    | .octetKeyPair material => some material
    | _ => none
  decode now token key :=
    if token = "h.c.s" ∧ key = "public" then
      if now ≤ 2000 then .ok (.object [("exp", .number "2000"), ("sub", .string "ada")])
      else .error .expiredSignature
    else .error .invalidSignature
  sha256Hex text :=
    if text = "ada" then "fdee430d40bd57deeac186cd9790033d0f06f909a8806e7ce6e717ab7c7d5029" else ""

def sampleVerifier : JwtIdentityVerifier := ⟨"sub", [.edDSA], by decide⟩

def oldKeys : List Jwk := [⟨some "old", none, none, none, .octetKeyPair "former"⟩]

def newKeys : List Jwk := [⟨some "new", some .signature, none, some "EdDSA", .octetKeyPair "public"⟩]

/-- The keys change after the server has started, and a request fetches the new ones. -/
def rotation : List Move :=
  [.publish newKeys, .arrive (some "Bearer h.c.s"), .request 0 .verify, .request 0 .reply,
    .request 0 .store, .request 0 .verify]

theorem accepted_justified_rotation : ∃ published,
    [oldKeys, newKeys][1]? = some published ∧
      ∃ evidence : Justified sampleLibrary sampleVerifier published 1500 "h.c.s"
          ⟨sampleLibrary.sha256Hex "ada"⟩,
        isAsymmetricJwk evidence.jwk = true ∧ isHmacAlgorithm evidence.header.alg = false := by
  have hstart : start oldKeys 1500 = some ⟨⟨1500, [oldKeys], oldKeys, 0, 0⟩, []⟩ := rfl
  have hrun : run (step sampleLibrary sampleVerifier) ⟨⟨1500, [oldKeys], oldKeys, 0, 0⟩, []⟩
      rotation = some ⟨⟨1500, [oldKeys, newKeys], newKeys, 1, 1⟩,
        [.judged "h.c.s" 1 true 1 1500 (.ok ⟨sampleLibrary.sha256Hex "ada"⟩)]⟩ := rfl
  have hcall : [Phase.judged "h.c.s" 1 true 1 1500
      (.ok ⟨sampleLibrary.sha256Hex "ada"⟩)][0]? = some _ := rfl
  exact accepted_justified hstart hrun hcall

section Refreshes
variable {library : Library} {verifier : JwtIdentityVerifier} {s t : State} {shared shared' : Shared}
  {phase phase' : Phase} {act : Act} {move : Move} {moves : List Move} {jwks : List Jwk} {clock : ℕ}

/-! ## How often the keys are fetched -/

def Phase.begun : Phase → Bool
  | .arrived _ _ => false
  | _ => true

theorem RequestStep.fetches_le (h : RequestStep library verifier shared phase act shared' phase') :
    phase'.begun = true ∧
      shared'.fetches + (if phase.begun then 1 else 0) ≤ shared.fetches + 1 := by
  cases h with
  | drop phase =>
      refine ⟨rfl, ?_⟩
      split <;> omega
  | _ => exact ⟨rfl, by simp [Phase.begun]⟩

/-- A request fetches the keys once at most, whatever its token says and however often the keys
change. -/
theorem fetches_le_requests (hstart : start jwks clock = some s)
    (hrun : run (step library verifier) s moves = some t) :
    t.shared.fetches ≤ t.calls.length := by
  have hbegun : t.shared.fetches ≤ t.calls.countP Phase.begun := by
    refine run_invariant (fun s : State => s.shared.fetches ≤ s.calls.countP Phase.begun)
      (fun s move t hle hstep => ?_) ?_ hrun
    · cases move with
      | tick now =>
          cases hstep
          exact hle
      | publish jwks =>
          cases hstep
          exact hle
      | arrive authorization =>
          cases hstep
          rw [List.countP_append]
          exact Nat.le_add_right_of_le hle
      | request i act =>
          obtain ⟨phase, shared', phase', hphase, hrequest, rfl⟩ := request_cases hstep
          obtain ⟨hnow, hfetches⟩ := hrequest.fetches_le
          have hcount := countP_set_add (p := Phase.begun) (b := phase') hphase
          rw [hnow, if_pos rfl] at hcount
          change shared'.fetches ≤ (s.calls.set i phase').countP Phase.begun
          change s.shared.fetches ≤ s.calls.countP Phase.begun at hle
          omega
    · unfold start at hstart
      split at hstart
      · cases hstart
        exact Nat.le_refl _
      · cases hstart
  exact hbegun.trans List.countP_le_length

/-! ## Keys that a request put in and others took away -/

/-- Who fetched the keys is judged by keys that were published when it came or later. -/
def Phase.Current (cacheVersion : ℕ) : Phase → Prop
  | .stored _ since => since ≤ cacheVersion
  | .judged _ since true version _ _ => since ≤ version
  | _ => True

def Current (s : State) : Prop := ∀ call ∈ s.calls, call.Current s.shared.cacheVersion

/-- Nobody puts in keys that are too old for a request which waits for its second check. -/
def KeepsCurrent (s : State) : Move → Prop
  | .request i .store =>
      match s.calls[i]? with
      | some (.fetched _ _ version jwks) => validateJwksHasAsymmetricKey jwks = true →
          ∀ token since, .stored token since ∈ s.calls → since ≤ version
      | _ => True
  | _ => True

theorem current_set {calls : List Phase} {i cacheVersion : ℕ}
    (hcalls : ∀ call ∈ calls, call.Current cacheVersion) (hnew : phase'.Current cacheVersion) :
    ∀ call ∈ calls.set i phase', call.Current cacheVersion := by
  intro call hcall
  rcases List.mem_or_eq_of_mem_set hcall with hold | rfl
  · exact hcalls call hold
  · exact hnew

theorem mem_set_of_ne {calls : List Phase} {i : ℕ} {call : Phase} (hcall : call ∈ calls)
    (hphase : calls[i]? = some phase) (hne : call ≠ phase) : call ∈ calls.set i phase' := by
  obtain ⟨j, hj⟩ := List.mem_iff_getElem?.mp hcall
  have hij : i ≠ j := by
    rintro rfl
    exact hne (Option.some.inj (hj.symm.trans hphase))
  exact List.mem_iff_getElem?.mpr ⟨j, by rw [List.getElem?_set_ne hij, hj]⟩

theorem store_current {i since version : ℕ} {token : String}
    (hphase : s.calls[i]? = some (.fetched token since version jwks)) (hsince : since ≤ version)
    (hcurrent : Current s) :
    (∀ call ∈ s.calls.set i (.stored token since), call.Current version) ↔
      ∀ token since, .stored token since ∈ s.calls → since ≤ version := by
  constructor
  · intro hafter token' since' hwaits
    exact hafter _ (mem_set_of_ne hwaits hphase fun hne => by cases hne)
  · intro hkeeps
    refine current_set (fun call hcall => ?_) hsince
    have hbefore := hcurrent call hcall
    cases call with
    | stored token' since' => exact hkeeps token' since' hcall
    | judged token' since' refreshed version' now outcome =>
        cases refreshed with
        | true => exact hbefore
        | false => trivial
    | _ => trivial

theorem current_step (h : Consistent library verifier s) (hcurrent : Current s)
    (hstep : step library verifier s move = some t) : Current t ↔ KeepsCurrent s move := by
  cases move with
  | tick now =>
      cases hstep
      exact iff_of_true hcurrent trivial
  | publish jwks =>
      cases hstep
      exact iff_of_true hcurrent trivial
  | arrive authorization =>
      cases hstep
      refine iff_of_true (fun call hcall => ?_) trivial
      rcases List.mem_append.mp hcall with hold | hnew
      · exact hcurrent call hold
      · rw [List.mem_singleton.mp hnew]
        trivial
  | request i act =>
      obtain ⟨phase, shared', phase', hphase, hrequest, rfl⟩ := request_cases hstep
      cases hrequest with
      | store token since version jwks husable =>
          have hsince : since ≤ version := (h.calls _ (List.mem_of_getElem? hphase)).1
          have hstored := store_current hphase hsince hcurrent
          have hkeeps : KeepsCurrent s (.request i .store) ↔
              ∀ token since, .stored token since ∈ s.calls → since ≤ version := by
            simp only [KeepsCurrent, hphase, husable, true_implies]
          rw [hkeeps, ← hstored]
          exact Iff.rfl
      | unusable token since version jwks hunusable =>
          refine iff_of_true (current_set hcurrent trivial) ?_
          simp only [KeepsCurrent, hphase, hunusable, Bool.false_eq_true, false_implies]
      | second token since =>
          have hsince : since ≤ s.shared.cacheVersion :=
            hcurrent _ (List.mem_of_getElem? hphase)
          exact iff_of_true (current_set hcurrent hsince) trivial
      | _ => exact iff_of_true (current_set hcurrent trivial) trivial

/-- Then a token that all keys since its coming accept is not turned away when the provider has
changed its keys. -/
theorem rotated_accepted {i since version now : ℕ} {token : String} {identity : RequestIdentity}
    {outcome : Except VerificationError RequestIdentity} (hstart : start jwks clock = some s)
    (hrun : run (step library verifier) s moves = some t)
    (hcurrent : Current t)
    (hcall : t.calls[i]? = some (.judged token since true version now outcome))
    (hgood : ∀ later ≥ since, ∀ published, t.shared.published[later]? = some published →
      verifyTokenWithCache library verifier published now token = .ok identity) :
    outcome = .ok identity := by
  have hconsistent := run_invariant (Consistent library verifier)
    (fun s move t => consistent_step) (consistent_start hstart) hrun
  have hmem := List.mem_of_getElem? hcall
  obtain ⟨published, hpublished, houtcome⟩ := hconsistent.calls _ hmem
  rw [houtcome]
  exact hgood version (hcurrent _ hmem) published hpublished

end Refreshes

/-- A request that came before the keys changed puts its old ones over the new ones of another. -/
def overwriting : List Move :=
  [.arrive (some "Bearer h.c.s"), .request 0 .verify, .request 0 .reply, .publish newKeys,
    .arrive (some "Bearer h.c.s"), .request 1 .verify, .request 1 .reply, .request 1 .store,
    .request 0 .store, .request 1 .verify]

end DbtNova.JwtKeys
