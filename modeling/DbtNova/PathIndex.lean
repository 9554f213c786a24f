import DbtNova.Error
import DbtNova.Wildcard
import Mathlib.Data.List.Sort
import Mathlib.Data.List.TakeWhile
import Mathlib.Data.String.Basic

/-!
# Finding entities by path

Paths and patterns are lists of characters. The prefix index is built from the
original file paths, which lose their leading `./` when an entity is read; the
match test also looks at the manifest path. The text of a result row beyond the
path it is listed under depends on the detail level and is left out. The order
in which the index lists its entries is that of the entities; the result is
sorted, so nothing depends on it.
-/
namespace DbtNova.PathIndex
open Wildcard

/-! ## Globs -/

/-- `trim_start_matches("./")`. -/
def trimDotSlash : List Char → List Char
  | '.' :: '/' :: cs => trimDotSlash cs
  | cs => cs

def stripLeadingDotSlash : List Char → List Char
  | '.' :: '/' :: cs => cs
  | cs => cs

structure GlobPattern where
  tokens : List (Token Char)
  literal : Option (List Char)

/-- The token of a run of stars. -/
def starToken (stars : ℕ) : List (Token Char) :=
  if stars = 0 then [] else if stars = 1 then [.star] else [.globStar]

/-- Tokens with globstars; `stars` counts the stars read just before. -/
def tokenizeFrom : ℕ → List Char → List (Token Char)
  | stars, [] => starToken stars
  | stars, c :: cs =>
      if c = '*' then tokenizeFrom (stars + 1) cs
      else
        let token := if c = '?' then .question else .char c
        starToken stars ++ token :: tokenizeFrom 0 cs

def simpleToken (c : Char) : Token Char :=
  if c = '*' then .star else if c = '?' then .question else .char c

def tokenize (pattern : List Char) (allowGlobstar : Bool) : List (Token Char) :=
  if allowGlobstar then tokenizeFrom 0 pattern else pattern.map simpleToken

def compileGlob (pattern : List Char) (allowGlobstar : Bool) : GlobPattern :=
  let pattern := stripLeadingDotSlash pattern
  if pattern.any fun c => c == '*' || c == '?' then ⟨tokenize pattern allowGlobstar, none⟩
  else ⟨[], some pattern⟩

def globMatchCompiled (glob : GlobPattern) (text : List Char) : Bool :=
  let text := stripLeadingDotSlash text
  match glob.literal with
  | some literal => literal == text
  | none => matchTokens '/' glob.tokens text

/-! ## The prefix index -/

/-- `split('/')`: always at least one part. -/
def splitSlash : List Char → List (List Char)
  | [] => [[]]
  | c :: cs =>
      if c = '/' then [] :: splitSlash cs
      else
        match splitSlash cs with
        | [] => [[c]]
        | part :: parts => (c :: part) :: parts

/-- The growing prefixes of a path, one for each further part. -/
def growPrefixes (before : List Char) : List (List Char) → List (List Char)
  | [] => []
  | part :: parts =>
      let grown := before ++ '/' :: part
      grown :: growPrefixes grown parts

def pathPrefixes (path : List Char) : List (List Char) :=
  match splitSlash path with
  | [] => []
  | part :: parts => part :: growPrefixes part parts

/-- An entity as far as the path tools read it. -/
structure PathEntity where
  uniqueId : String
  resourceType : Option String := none
  payloadOriginalFilePath : Option (List Char) := none
  payloadPath : Option (List Char) := none
  deriving DecidableEq, Repr

/-- The field as `from_json` fills it. -/
def PathEntity.originalFilePath (e : PathEntity) : Option (List Char) :=
  e.payloadOriginalFilePath.map trimDotSlash

structure EntityStore where
  entities : List PathEntity
  nodup : (entities.map PathEntity.uniqueId).Nodup

/-- A key without entries is absent from the map. -/
abbrev PrefixIndex := List Char → List String

def push (index : PrefixIndex) (id : String) (key : List Char) : PrefixIndex :=
  Function.update index key (index key ++ [id])

def indexEntity (index : PrefixIndex) (e : PathEntity) : PrefixIndex :=
  match e.originalFilePath with
  | none => index
  | some path => (pathPrefixes path).foldl (fun index key => push index e.uniqueId key) index

def byPathPrefix (entities : List PathEntity) : PrefixIndex :=
  entities.foldl indexEntity fun _ => []

/-- The pattern up to its first glob character, a bracket included. -/
def staticPart (pattern : List Char) : List Char :=
  pattern.takeWhile fun c => c != '*' && c != '?' && c != '['

def trimEndSlash (cs : List Char) : List Char := (cs.reverse.dropWhile (· == '/')).reverse

def bestPrefix (index : PrefixIndex) (staticPrefix : List Char) : List Char :=
  (pathPrefixes staticPrefix).foldl
    (fun best current => if index current = [] then best else current) []

def getPathCandidates (store : EntityStore) (pattern : List Char) : List String :=
  let ids := store.entities.map PathEntity.uniqueId
  let staticPrefix := trimEndSlash (staticPart pattern)
  if staticPrefix = [] then ids
  else
    let index := byPathPrefix store.entities
    let best := bestPrefix index staticPrefix
    if best = [] then ids else index best

/-! ## The tool -/

structure FindByPathParams where
  pathPattern : List Char
  resourceTypes : List String := []
  offset : ℕ := 0
  limit : ℕ := 50
  deriving DecidableEq, Repr

structure Limits where
  maxPathPatternLength : ℕ
  maxOffset : ℕ

structure PathMatch where
  uniqueId : String
  sortPath : String
  originalPath : String
  manifestPath : String
  deriving DecidableEq, Repr

def PathEntity.originalPath (e : PathEntity) : List Char := trimDotSlash (e.originalFilePath.getD [])

def PathEntity.manifestPath (e : PathEntity) : List Char := trimDotSlash (e.payloadPath.getD [])

def originalMatches (matcher : GlobPattern) (e : PathEntity) : Bool :=
  e.originalPath != [] && globMatchCompiled matcher e.originalPath

def manifestMatches (matcher : GlobPattern) (e : PathEntity) : Bool :=
  e.manifestPath != [] && globMatchCompiled matcher e.manifestPath

def matchEntity (matcher : GlobPattern) (e : PathEntity) : Option PathMatch :=
  let found :=
    if originalMatches matcher e then some e.originalPath
    else if manifestMatches matcher e then some e.manifestPath
    else none
  found.map fun matched =>
    let output := if e.originalPath = [] then matched else e.originalPath
    ⟨e.uniqueId, String.ofList output, String.ofList e.originalPath,
      String.ofList e.manifestPath⟩

def resourceTypeAllowed (resourceTypes : List String) (e : PathEntity) : Bool :=
  resourceTypes.isEmpty || resourceTypes.any fun r => r == e.resourceType.getD ""

/-- The loop over the candidates; an id is looked at once. -/
def collectMatches (store : EntityStore) (matcher : GlobPattern) (resourceTypes : List String) :
    List String → List String → List PathMatch
  | _, [] => []
  | seen, id :: ids =>
      if id ∈ seen then collectMatches store matcher resourceTypes seen ids
      else
        let rest := collectMatches store matcher resourceTypes (id :: seen) ids
        match store.entities.find? fun e => e.uniqueId == id with
        | none => rest
        | some e =>
            if resourceTypeAllowed resourceTypes e then
              match matchEntity matcher e with
              | some found => found :: rest
              | none => rest
            else rest

def PathMatch.before (a b : PathMatch) : Prop :=
  a.sortPath < b.sortPath ∨ (a.sortPath = b.sortPath ∧ a.uniqueId ≤ b.uniqueId)

instance (a b : PathMatch) : Decidable (a.before b) :=
  inferInstanceAs (Decidable (_ ∨ _))

structure FindByPathResult where
  totalMatches : ℕ
  rows : List PathMatch
  deriving DecidableEq, Repr

/-- The tool over a given list of candidates. -/
def findAmong (store : EntityStore) (params : FindByPathParams) (candidates : List String) :
    FindByPathResult :=
  let matcher := compileGlob (trimDotSlash params.pathPattern) true
  let found := (collectMatches store matcher params.resourceTypes [] candidates).insertionSort
    PathMatch.before
  ⟨found.length, (found.drop params.offset).take params.limit⟩

def findByPath (limits : Limits) (store : EntityStore) (params : FindByPathParams) :
    Result FindByPathResult :=
  if params.pathPattern.length > limits.maxPathPatternLength then
    .error (.invalidParams ("Path pattern exceeds maximum length of " ++
      toString limits.maxPathPatternLength ++ " characters"))
  else if params.offset > limits.maxOffset then
    .error (.invalidParams ("Offset exceeds maximum of " ++ toString limits.maxOffset))
  else
    .ok (findAmong store params (getPathCandidates store (trimDotSlash params.pathPattern)))

/-! ## Component prefixes -/

/-- One walk over the path: `before` has been read since its start. -/
theorem splitSlash_grow (before cs : List Char) :
    ∃ part parts, splitSlash cs = part :: parts ∧
      ∀ b, b ∈ (before ++ part) :: growPrefixes (before ++ part) parts ↔
        b = before ++ cs ∨ ∃ t, b = before ++ t ∧ t ++ ['/'] <+: cs := by
  induction cs generalizing before with
  | nil =>
      refine ⟨[], [], rfl, fun b => ?_⟩
      simp [growPrefixes]
  | cons c cs ih =>
      by_cases hc : c = '/'
      · subst hc
        obtain ⟨part, parts, hsplit, hmem⟩ := ih (before ++ ['/'])
        refine ⟨[], part :: parts, by simp [splitSlash, hsplit], fun b => ?_⟩
        have hgrow : growPrefixes (before ++ []) (part :: parts) =
            (before ++ ['/'] ++ part) :: growPrefixes (before ++ ['/'] ++ part) parts := by
          simp [growPrefixes]
        rw [hgrow, List.mem_cons, hmem b]
        constructor
        · intro h
          rcases h with rfl | rfl | ⟨t, rfl, ht⟩
          · exact .inr ⟨[], by simp, by simp⟩
          · exact .inl (by simp)
          · exact .inr ⟨'/' :: t, by simp, by simpa using ht⟩
        · intro h
          rcases h with rfl | ⟨t, rfl, ht⟩
          · exact .inr (.inl (by simp))
          · cases t with
            | nil => exact .inl (by simp)
            | cons d t =>
                simp only [List.cons_append, List.cons_prefix_cons] at ht
                obtain ⟨rfl, ht⟩ := ht
                exact .inr (.inr ⟨t, by simp, ht⟩)
      · obtain ⟨part, parts, hsplit, hmem⟩ := ih (before ++ [c])
        refine ⟨c :: part, parts, by simp [splitSlash, hc, hsplit], fun b => ?_⟩
        have hpart : before ++ c :: part = before ++ [c] ++ part := by simp
        rw [hpart, hmem b]
        constructor
        · intro h
          rcases h with rfl | ⟨t, rfl, ht⟩
          · exact .inl (by simp)
          · exact .inr ⟨c :: t, by simp, by simpa using ht⟩
        · intro h
          rcases h with rfl | ⟨t, rfl, ht⟩
          · exact .inl (by simp)
          · cases t with
            | nil =>
                simp only [List.nil_append, List.cons_prefix_cons] at ht
                exact absurd ht.1.symm hc
            | cons d t =>
                simp only [List.cons_append, List.cons_prefix_cons] at ht
                obtain ⟨rfl, ht⟩ := ht
                exact .inr ⟨t, by simp, ht⟩

/-- The indexed prefixes of a path end at its end or in front of a slash. -/
theorem mem_pathPrefixes {b path : List Char} :
    b ∈ pathPrefixes path ↔ b = path ∨ b ++ ['/'] <+: path := by
  obtain ⟨part, parts, hsplit, hmem⟩ := splitSlash_grow [] path
  simpa [pathPrefixes, hsplit] using hmem b

theorem mem_push {index : PrefixIndex} {id id' : String} {key key' : List Char} :
    id' ∈ push index id key key' ↔ id' ∈ index key' ∨ (key' = key ∧ id' = id) := by
  by_cases hkey : key' = key
  · subst hkey
    simp [push]
  · simp [push, hkey]

theorem mem_pushAll {index : PrefixIndex} {id id' : String} {keys : List (List Char)}
    {key' : List Char} :
    id' ∈ keys.foldl (fun index key => push index id key) index key' ↔
      id' ∈ index key' ∨ (key' ∈ keys ∧ id' = id) := by
  induction keys generalizing index with
  | nil => simp
  | cons key keys ih =>
      rw [List.foldl_cons, ih, mem_push, List.mem_cons]
      tauto

/-- An entity is listed under the prefixes of its original path. -/
def UnderPrefix (e : PathEntity) (b : List Char) : Prop :=
  ∃ path, e.originalFilePath = some path ∧ b ∈ pathPrefixes path

theorem mem_indexEntity {index : PrefixIndex} {e : PathEntity} {id : String} {key : List Char} :
    id ∈ indexEntity index e key ↔ id ∈ index key ∨ (UnderPrefix e key ∧ id = e.uniqueId) := by
  unfold indexEntity UnderPrefix
  cases e.originalFilePath with
  | none => simp
  | some path => simp [mem_pushAll]

theorem mem_byPathPrefix {entities : List PathEntity} {id : String} {key : List Char} :
    id ∈ byPathPrefix entities key ↔ ∃ e ∈ entities, UnderPrefix e key ∧ id = e.uniqueId := by
  have hfold (index : PrefixIndex) :
      id ∈ entities.foldl indexEntity index key ↔
        id ∈ index key ∨ ∃ e ∈ entities, UnderPrefix e key ∧ id = e.uniqueId := by
    induction entities generalizing index with
    | nil => simp
    | cons e entities ih =>
        rw [List.foldl_cons, ih, mem_indexEntity]
        simp only [List.mem_cons, exists_eq_or_imp]
        tauto
  rw [byPathPrefix, hfold]
  simp

/-- The prefix chosen is one of the static part, or there is none. -/
theorem bestPrefix_mem (index : PrefixIndex) (staticPrefix : List Char) :
    bestPrefix index staticPrefix = [] ∨
      bestPrefix index staticPrefix ∈ pathPrefixes staticPrefix := by
  have hfold (keys : List (List Char)) (best : List Char) :
      let chosen := keys.foldl
        (fun best current => if index current = [] then best else current) best
      chosen = best ∨ chosen ∈ keys := by
    induction keys generalizing best with
    | nil => exact .inl rfl
    | cons key keys ih =>
        rw [List.foldl_cons]
        split
        · rcases ih best with h | h
          · exact .inl h
          · exact .inr (List.mem_cons_of_mem _ h)
        · rcases ih key with h | h
          · exact .inr (by rw [h]; exact List.mem_cons_self)
          · exact .inr (List.mem_cons_of_mem _ h)
  exact hfold (pathPrefixes staticPrefix) []

theorem bestPrefix_nil (index : PrefixIndex) : bestPrefix index [] = [] := by
  rcases bestPrefix_mem index [] with h | h
  · exact h
  · simpa [pathPrefixes, splitSlash, growPrefixes] using h

/-- The longest indexed prefix of the text in front of the first glob character. -/
def indexedPrefix (store : EntityStore) (pattern : List Char) : List Char :=
  bestPrefix (byPathPrefix store.entities) (trimEndSlash (staticPart pattern))

theorem getPathCandidates_eq (store : EntityStore) (pattern : List Char) :
    getPathCandidates store pattern =
      if indexedPrefix store pattern = [] then store.entities.map PathEntity.uniqueId
      else byPathPrefix store.entities (indexedPrefix store pattern) := by
  unfold getPathCandidates indexedPrefix
  by_cases hstatic : trimEndSlash (staticPart pattern) = []
  · simp [hstatic, bestPrefix_nil]
  · simp [hstatic]

theorem uniqueId_inj {store : EntityStore} {e e' : PathEntity} (he : e ∈ store.entities)
    (he' : e' ∈ store.entities) (h : e.uniqueId = e'.uniqueId) : e = e' :=
  List.inj_on_of_nodup_map store.nodup he he' h

theorem mem_getPathCandidates {store : EntityStore} {pattern : List Char} {e : PathEntity}
    (he : e ∈ store.entities) :
    e.uniqueId ∈ getPathCandidates store pattern ↔
      indexedPrefix store pattern = [] ∨ UnderPrefix e (indexedPrefix store pattern) := by
  rw [getPathCandidates_eq]
  by_cases hnone : indexedPrefix store pattern = []
  · simp only [hnone, if_true, true_or, iff_true]
    exact List.mem_map_of_mem he
  · simp only [hnone, if_false, false_or, mem_byPathPrefix]
    constructor
    · intro h
      obtain ⟨e', he', hunder, hid⟩ := h
      rwa [uniqueId_inj he he' hid]
    · intro hunder
      exact ⟨e, he, hunder, rfl⟩

/-! ## What a match says about the original path -/

theorem strip_trimDotSlash (cs : List Char) :
    stripLeadingDotSlash (trimDotSlash cs) = trimDotSlash cs := by
  induction cs using trimDotSlash.induct with
  | case1 cs ih => simpa [trimDotSlash] using ih
  | case2 cs hcs =>
      have htrim : trimDotSlash cs = cs := by
        unfold trimDotSlash
        split
        · exact absurd rfl (hcs _)
        · rfl
      rw [htrim]
      unfold stripLeadingDotSlash
      split
      · exact absurd rfl (hcs _)
      · rfl

theorem trimDotSlash_idem (cs : List Char) :
    trimDotSlash (trimDotSlash cs) = trimDotSlash cs := by
  induction cs using trimDotSlash.induct with
  | case1 cs ih => simpa [trimDotSlash] using ih
  | case2 cs hcs =>
      have htrim : trimDotSlash cs = cs := by
        unfold trimDotSlash
        split
        · exact absurd rfl (hcs _)
        · rfl
      rw [htrim, htrim]

theorem tokenizeFrom_letters {letters rest : List Char}
    (h : ∀ c ∈ letters, c ≠ '*' ∧ c ≠ '?') :
    tokenizeFrom 0 (letters ++ rest) = letters.map .char ++ tokenizeFrom 0 rest := by
  induction letters with
  | nil => rfl
  | cons c letters ih =>
      have hc := h c List.mem_cons_self
      have hrest := ih fun d hd => h d (List.mem_cons_of_mem c hd)
      simp [tokenizeFrom, starToken, hc.1, hc.2, hrest]

theorem staticPart_letters {pattern : List Char} :
    ∀ c ∈ staticPart pattern, c ≠ '*' ∧ c ≠ '?' := by
  intro c hc
  have := List.mem_takeWhile_imp hc
  simp only [Bool.and_eq_true, bne_iff_ne] at this
  exact this.1

/-- A match begins with the static part of the pattern. -/
theorem globMatch_starts_with {pattern text : List Char}
    (hpattern : stripLeadingDotSlash pattern = pattern)
    (htext : stripLeadingDotSlash text = text)
    (h : globMatchCompiled (compileGlob pattern true) text = true) :
    staticPart pattern <+: text := by
  have hinitial : staticPart pattern <+: pattern := List.takeWhile_prefix _
  simp only [compileGlob, hpattern] at h
  split at h
  · simp only [globMatchCompiled, htext, tokenize, if_true] at h
    rw [matchTokens_iff] at h
    obtain ⟨rest, hrest⟩ := hinitial
    rw [← hrest, tokenizeFrom_letters staticPart_letters] at h
    exact h.starts_with
  · simp only [globMatchCompiled, htext, beq_iff_eq] at h
    rwa [← h]

theorem trimEndSlash_cases (cs : List Char) :
    trimEndSlash cs = cs ∨ trimEndSlash cs ++ ['/'] <+: cs := by
  have hsplit := List.takeWhile_append_dropWhile (p := (· == '/')) (l := cs.reverse)
  have hcs : cs = trimEndSlash cs ++ (cs.reverse.takeWhile (· == '/')).reverse := by
    rw [trimEndSlash, ← List.reverse_append, hsplit, List.reverse_reverse]
  cases hslashes : (cs.reverse.takeWhile (· == '/')).reverse with
  | nil =>
      rw [hslashes, List.append_nil] at hcs
      exact .inl hcs.symm
  | cons c slashes =>
      have hc : c = '/' := by
        have hmem : c ∈ cs.reverse.takeWhile (· == '/') := by
          rw [← List.mem_reverse, hslashes]
          exact List.mem_cons_self
        simpa using List.mem_takeWhile_imp hmem
      refine .inr ⟨slashes, ?_⟩
      rw [hslashes, hc] at hcs
      simpa using hcs.symm

/-- The path goes on inside the last segment of `b`. -/
def ContinuesSegment (b path : List Char) : Prop :=
  ∃ c rest, c ≠ '/' ∧ path = b ++ c :: rest

theorem mem_pathPrefixes_of_prefix {b path : List Char} (h : b <+: path) :
    b ∈ pathPrefixes path ↔ ¬ ContinuesSegment b path := by
  obtain ⟨rest, rfl⟩ := h
  rw [mem_pathPrefixes]
  cases rest with
  | nil => simp [ContinuesSegment]
  | cons c rest =>
      by_cases hc : c = '/'
      · subst hc
        simp [ContinuesSegment]
      · have hcontinues : ContinuesSegment b (b ++ c :: rest) := ⟨c, rest, hc, rfl⟩
        simp [hcontinues, List.prefix_append_right_inj, List.cons_prefix_cons, Ne.symm hc]

/-- A path that begins with the static part lies under its chosen prefix, unless
that is the whole static part and the path goes on inside its last segment. -/
theorem under_bestPrefix_iff {index : PrefixIndex} {static path : List Char}
    (hbest : bestPrefix index (trimEndSlash static) ≠ []) (hstatic : static <+: path) :
    bestPrefix index (trimEndSlash static) ∈ pathPrefixes path ↔
      ¬ (bestPrefix index (trimEndSlash static) = static ∧
        ContinuesSegment (bestPrefix index (trimEndSlash static)) path) := by
  generalize hb : bestPrefix index (trimEndSlash static) = b at *
  by_cases hwhole : b = static
  · rw [hwhole, mem_pathPrefixes_of_prefix hstatic]
    simp
  · have hmem : b ∈ pathPrefixes (trimEndSlash static) := by
      rw [← hb]
      exact (bestPrefix_mem index _).resolve_left (by rwa [hb])
    -- The chosen prefix ends in front of a slash of the static part.
    have hslash : b ++ ['/'] <+: static := by
      have htrim := trimEndSlash_cases static
      rcases mem_pathPrefixes.mp hmem with heq | hpre
      · rcases htrim with hsame | hcut
        · exact absurd (heq.trans hsame) hwhole
        · rwa [heq]
      · rcases htrim with hsame | hcut
        · rwa [hsame] at hpre
        · exact hpre.trans ((List.prefix_append _ _).trans hcut)
    simp [hwhole, mem_pathPrefixes.mpr (.inr (hslash.trans hstatic))]

/-! ## When the index is only an optimisation -/

/-- Every entity that passes the match test is among the candidates. -/
def CandidatesComplete (store : EntityStore) (pattern : List Char) : Prop :=
  ∀ e ∈ store.entities,
    (originalMatches (compileGlob pattern true) e || manifestMatches (compileGlob pattern true) e) =
        true → e.uniqueId ∈ getPathCandidates store pattern

/-- No indexed path is taken for the pattern, or the one taken is not cut off
inside a segment that a matching original path continues, and covers the
entities that match by their manifest path alone. -/
def PrefixSafe (store : EntityStore) (pattern : List Char) : Prop :=
  indexedPrefix store pattern = [] ∨
    ∀ e ∈ store.entities,
      (originalMatches (compileGlob pattern true) e = true →
        indexedPrefix store pattern = staticPart pattern →
          ¬ ContinuesSegment (staticPart pattern) e.originalPath) ∧
      (originalMatches (compileGlob pattern true) e = false →
        manifestMatches (compileGlob pattern true) e = true →
          UnderPrefix e (indexedPrefix store pattern))

/-- A matching original path is the indexed one. -/
theorem originalFilePath_of_match {matcher : GlobPattern} {e : PathEntity}
    (h : originalMatches matcher e = true) : e.originalFilePath = some e.originalPath := by
  simp only [originalMatches, Bool.and_eq_true, bne_iff_ne] at h
  unfold PathEntity.originalPath PathEntity.originalFilePath at *
  cases hraw : e.payloadOriginalFilePath with
  | none => simp [hraw, trimDotSlash] at h
  | some path => simp [trimDotSlash_idem]

theorem candidatesComplete_iff (store : EntityStore) (pattern : List Char)
    (hpattern : stripLeadingDotSlash pattern = pattern) :
    CandidatesComplete store pattern ↔ PrefixSafe store pattern := by
  by_cases hnone : indexedPrefix store pattern = []
  · refine iff_of_true (fun e he _ => ?_) (.inl hnone)
    exact (mem_getPathCandidates he).mpr (.inl hnone)
  have hsafe : PrefixSafe store pattern ↔ ∀ e ∈ store.entities,
      (originalMatches (compileGlob pattern true) e = true →
        indexedPrefix store pattern = staticPart pattern →
          ¬ ContinuesSegment (staticPart pattern) e.originalPath) ∧
      (originalMatches (compileGlob pattern true) e = false →
        manifestMatches (compileGlob pattern true) e = true →
          UnderPrefix e (indexedPrefix store pattern)) := by
    rw [PrefixSafe, or_iff_right hnone]
  rw [hsafe, CandidatesComplete]
  refine forall₂_congr fun e he => ?_
  rw [mem_getPathCandidates he, or_iff_right hnone]
  cases hmatch : originalMatches (compileGlob pattern true) e with
  | false => simp
  | true =>
      have hpath := originalFilePath_of_match hmatch
      have htext : stripLeadingDotSlash e.originalPath = e.originalPath :=
        strip_trimDotSlash _
      have hstarts : staticPart pattern <+: e.originalPath := by
        simp only [originalMatches, Bool.and_eq_true] at hmatch
        exact globMatch_starts_with hpattern htext hmatch.2
      have hunder : UnderPrefix e (indexedPrefix store pattern) ↔
          ¬ (indexedPrefix store pattern = staticPart pattern ∧
            ContinuesSegment (indexedPrefix store pattern) e.originalPath) := by
        have hbest := under_bestPrefix_iff hnone hstarts
        rw [← indexedPrefix.eq_1] at hbest
        simpa [UnderPrefix, hpath] using hbest
      simp only [Bool.true_or, hunder, true_imp_iff, reduceCtorEq, false_imp_iff, and_true,
        not_and]
      refine imp_congr_right fun heq => ?_
      rw [heq]

/-! ## The results of the tool -/

theorem find_uniqueId {store : EntityStore} {id : String} {e : PathEntity} :
    (store.entities.find? fun e => e.uniqueId == id) = some e ↔
      e ∈ store.entities ∧ e.uniqueId = id := by
  constructor
  · intro h
    exact ⟨List.mem_of_find?_eq_some h, by simpa using List.find?_some h⟩
  · intro h
    obtain ⟨he, rfl⟩ := h
    cases hfind : store.entities.find? fun e' => e'.uniqueId == e.uniqueId with
    | none =>
        have := List.find?_eq_none.mp hfind e he
        simp at this
    | some e' =>
        have hid : e'.uniqueId = e.uniqueId := by simpa using List.find?_some hfind
        rw [uniqueId_inj (List.mem_of_find?_eq_some hfind) he hid]

theorem matchEntity_uniqueId {matcher : GlobPattern} {e : PathEntity} {found : PathMatch}
    (h : matchEntity matcher e = some found) : found.uniqueId = e.uniqueId := by
  simp only [matchEntity, Option.map_eq_some_iff] at h
  obtain ⟨matched, -, rfl⟩ := h
  rfl

theorem matchEntity_isSome {matcher : GlobPattern} {e : PathEntity} {found : PathMatch}
    (h : matchEntity matcher e = some found) :
    (originalMatches matcher e || manifestMatches matcher e) = true := by
  unfold matchEntity at h
  cases horiginal : originalMatches matcher e <;>
    cases hmanifest : manifestMatches matcher e <;>
    simp [horiginal, hmanifest] at h ⊢

section Lookup
variable {store : EntityStore} {seen ids : List String} {id : String} (P : PathEntity → Prop)

/-- The entities behind a list of ids are that of the first one and those behind the others. -/
theorem listed_cons_iff (hseen : id ∉ seen) :
    (∃ e ∈ store.entities, e.uniqueId ∈ id :: ids ∧ e.uniqueId ∉ seen ∧ P e) ↔
      (∃ e ∈ store.entities, e.uniqueId = id ∧ P e) ∨
        ∃ e ∈ store.entities, e.uniqueId ∈ ids ∧ e.uniqueId ∉ id :: seen ∧ P e := by
  constructor
  · intro h
    obtain ⟨e, he, hid, hns, hok⟩ := h
    by_cases heq : e.uniqueId = id
    · exact .inl ⟨e, he, heq, hok⟩
    · exact .inr ⟨e, he, (List.mem_cons.mp hid).resolve_left heq, by simp [heq, hns], hok⟩
  · intro h
    rcases h with ⟨e, he, rfl, hok⟩ | ⟨e, he, hid, hns, hok⟩
    · exact ⟨e, he, List.mem_cons_self, hseen, hok⟩
    · exact ⟨e, he, List.mem_cons_of_mem _ hid, fun h => hns (List.mem_cons_of_mem _ h), hok⟩

theorem listed_seen_iff (hseen : id ∈ seen) :
    (∃ e ∈ store.entities, e.uniqueId ∈ id :: ids ∧ e.uniqueId ∉ seen ∧ P e) ↔
      ∃ e ∈ store.entities, e.uniqueId ∈ ids ∧ e.uniqueId ∉ seen ∧ P e := by
  constructor
  · intro h
    obtain ⟨e, he, hid, hns, hok⟩ := h
    rcases List.mem_cons.mp hid with rfl | hid
    · exact absurd hseen hns
    · exact ⟨e, he, hid, hns, hok⟩
  · intro h
    obtain ⟨e, he, hid, hns, hok⟩ := h
    exact ⟨e, he, List.mem_cons_of_mem _ hid, hns, hok⟩

/-- An id stands for at most one entity. -/
theorem named_iff :
    (∃ e ∈ store.entities, e.uniqueId = id ∧ P e) ↔
      ∃ e, (store.entities.find? fun e => e.uniqueId == id) = some e ∧ P e := by
  constructor
  · intro h
    obtain ⟨e, he, hid, hok⟩ := h
    exact ⟨e, find_uniqueId.mpr ⟨he, hid⟩, hok⟩
  · intro h
    obtain ⟨e, hfind, hok⟩ := h
    obtain ⟨he, hid⟩ := find_uniqueId.mp hfind
    exact ⟨e, he, hid, hok⟩

end Lookup

/-- What the loop collects: one match for each listed entity that passes. -/
theorem mem_collectMatches {store : EntityStore} {matcher : GlobPattern}
    {resourceTypes seen ids : List String} {found : PathMatch} :
    found ∈ collectMatches store matcher resourceTypes seen ids ↔
      ∃ e ∈ store.entities, e.uniqueId ∈ ids ∧ e.uniqueId ∉ seen ∧
        resourceTypeAllowed resourceTypes e = true ∧ matchEntity matcher e = some found := by
  induction ids generalizing seen with
  | nil => simp [collectMatches]
  | cons id ids ih =>
      rw [collectMatches]
      by_cases hseen : id ∈ seen
      · rw [if_pos hseen, ih, listed_seen_iff _ hseen]
      · rw [if_neg hseen, listed_cons_iff _ hseen, named_iff, ← ih]
        cases hfind : store.entities.find? fun e => e.uniqueId == id with
        | none => simp
        | some e =>
            cases hallowed : resourceTypeAllowed resourceTypes e with
            | false => simp [hallowed]
            | true =>
                cases hmatch : matchEntity matcher e with
                | none => simp [hallowed, hmatch]
                | some found' => simp [hallowed, hmatch, @eq_comm _ found found']

theorem collectMatches_nodup (store : EntityStore) (matcher : GlobPattern)
    (resourceTypes seen ids : List String) :
    (collectMatches store matcher resourceTypes seen ids).Nodup := by
  induction ids generalizing seen with
  | nil => simp [collectMatches]
  | cons id ids ih =>
      rw [collectMatches]
      split
      · exact ih seen
      · dsimp only
        split
        · exact ih (id :: seen)
        · rename_i e hfind
          split
          · split
            · rename_i found hfound
              refine List.nodup_cons.mpr ⟨fun hmem => ?_, ih (id :: seen)⟩
              obtain ⟨e', -, -, hns, -, hfound'⟩ := mem_collectMatches.mp hmem
              have hid := (find_uniqueId.mp hfind).2
              rw [← matchEntity_uniqueId hfound', matchEntity_uniqueId hfound, hid] at hns
              exact hns List.mem_cons_self
            · exact ih (id :: seen)
          · exact ih (id :: seen)

theorem collectMatches_inj {store : EntityStore} {matcher : GlobPattern}
    {resourceTypes seen seen' ids ids' : List String} {a b : PathMatch}
    (ha : a ∈ collectMatches store matcher resourceTypes seen ids)
    (hb : b ∈ collectMatches store matcher resourceTypes seen' ids')
    (h : a.uniqueId = b.uniqueId) : a = b := by
  obtain ⟨e, he, -, -, -, hea⟩ := mem_collectMatches.mp ha
  obtain ⟨e', he', -, -, -, heb⟩ := mem_collectMatches.mp hb
  rw [matchEntity_uniqueId hea, matchEntity_uniqueId heb] at h
  rw [uniqueId_inj he he' h, heb] at hea
  exact (Option.some.inj hea).symm

theorem before_trans : IsTrans PathMatch PathMatch.before := by
  refine ⟨fun a b c hab hbc => ?_⟩
  rcases hab with hab | ⟨hab, hid⟩
  · rcases hbc with hbc | ⟨hbc, -⟩
    · exact .inl (hab.trans hbc)
    · exact .inl (hbc ▸ hab)
  · rcases hbc with hbc | ⟨hbc, hid'⟩
    · exact .inl (hab ▸ hbc)
    · exact .inr ⟨hab.trans hbc, hid.trans hid'⟩

theorem before_total : Std.Total PathMatch.before := by
  refine ⟨fun a b => ?_⟩
  rcases lt_trichotomy a.sortPath b.sortPath with h | h | h
  · exact .inl (.inl h)
  · rcases le_total a.uniqueId b.uniqueId with hid | hid
    · exact .inl (.inr ⟨h, hid⟩)
    · exact .inr (.inr ⟨h.symm, hid⟩)
  · exact .inr (.inl h)

theorem before_antisymm {a b : PathMatch} (hab : a.before b) (hba : b.before a) :
    a.uniqueId = b.uniqueId := by
  rcases hab with hab | ⟨hab, hid⟩
  · rcases hba with hba | ⟨hba, -⟩
    · exact absurd (hab.trans hba) (lt_irrefl _)
    · exact absurd (hba ▸ hab) (lt_irrefl _)
  · rcases hba with hba | ⟨-, hid'⟩
    · exact absurd (hab ▸ hba) (lt_irrefl _)
    · exact le_antisymm hid hid'

/-- Complete candidates give the result of a scan over all entities. -/
theorem findAmong_complete {store : EntityStore} {params : FindByPathParams}
    (h : CandidatesComplete store (trimDotSlash params.pathPattern)) :
    findAmong store params (getPathCandidates store (trimDotSlash params.pathPattern)) =
      findAmong store params (store.entities.map PathEntity.uniqueId) := by
  have hsame : ∀ found,
      found ∈ collectMatches store (compileGlob (trimDotSlash params.pathPattern) true)
        params.resourceTypes [] (getPathCandidates store (trimDotSlash params.pathPattern)) ↔
      found ∈ collectMatches store (compileGlob (trimDotSlash params.pathPattern) true)
        params.resourceTypes [] (store.entities.map PathEntity.uniqueId) := by
    intro found
    simp only [mem_collectMatches]
    refine exists_congr fun e => and_congr_right fun he => ?_
    constructor
    · intro h
      obtain ⟨-, hns, hok⟩ := h
      exact ⟨List.mem_map_of_mem he, hns, hok⟩
    · intro h
      obtain ⟨-, hns, hallowed, hmatch⟩ := h
      exact ⟨h e he (matchEntity_isSome hmatch), hns, hallowed, hmatch⟩
  have hperm := (List.perm_ext_iff_of_nodup (collectMatches_nodup _ _ _ _ _)
    (collectMatches_nodup _ _ _ _ _)).mpr hsame
  have htrans := before_trans
  have htotal := before_total
  have hsorted := ((List.perm_insertionSort PathMatch.before _).trans
    (hperm.trans (List.perm_insertionSort PathMatch.before _).symm)).eq_of_pairwise
      (fun a b ha hb hab hba => collectMatches_inj
        ((List.mem_insertionSort _).mp ha) ((List.mem_insertionSort _).mp hb)
        (before_antisymm hab hba))
      (List.pairwise_insertionSort _ _) (List.pairwise_insertionSort _ _)
  simp only [findAmong, hsorted]

/-- The prefix index is only an optimisation exactly for the patterns whose
chosen prefix is safe. -/
theorem find_by_path_scan_iff (store : EntityStore) (rawPattern : List Char) :
    ((∀ e ∈ store.entities,
        (originalMatches (compileGlob (trimDotSlash rawPattern) true) e ||
          manifestMatches (compileGlob (trimDotSlash rawPattern) true) e) = true →
          e.uniqueId ∈ getPathCandidates store (trimDotSlash rawPattern)) ∧
      ∀ params : FindByPathParams, params.pathPattern = rawPattern →
        findAmong store params (getPathCandidates store (trimDotSlash rawPattern)) =
          findAmong store params (store.entities.map PathEntity.uniqueId)) ↔
      PrefixSafe store (trimDotSlash rawPattern) := by
  rw [← candidatesComplete_iff store _ (strip_trimDotSlash rawPattern)]
  refine ⟨fun h => h.1, fun h => ⟨h, fun params hparams => ?_⟩⟩
  subst hparams
  exact findAmong_complete h

/-- A directory and a file beside it whose name begins like it. -/
def marts : EntityStore where
  entities :=
    [{ uniqueId := "model.a", payloadOriginalFilePath := some "models/mart/a.sql".toList },
      { uniqueId := "model.b", payloadOriginalFilePath := some "models/mart_b.sql".toList }]
  nodup := by decide

/-- `models/mart*` matches the file, but the directory `models/mart` is indexed. -/
theorem cut_segment_misses_entity :
    ∃ e ∈ marts.entities,
      (originalMatches (compileGlob (trimDotSlash "models/mart*".toList) true) e ||
        manifestMatches (compileGlob (trimDotSlash "models/mart*".toList) true) e) = true ∧
      e.uniqueId ∉ getPathCandidates marts (trimDotSlash "models/mart*".toList) ∧
      findByPath ⟨100, 100⟩ marts { pathPattern := "models/mart*".toList } =
        .ok ⟨0, []⟩ := by
  refine ⟨{ uniqueId := "model.b", payloadOriginalFilePath := some "models/mart_b.sql".toList },
    by decide +kernel, by decide +kernel, by decide +kernel, by decide +kernel⟩

end DbtNova.PathIndex
