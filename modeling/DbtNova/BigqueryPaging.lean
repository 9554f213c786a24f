import DbtNova.Error
import DbtNova.JsonFields
import DbtNova.Redaction
import DbtNova.StepLoop
import DbtNova.Utf8
import DbtNova.Warehouse

/-!
# Paging through a BigQuery result

The first response may bring rows and a token for the next page; the loop asks for pages as
long as there is a token, nothing was truncated and the cap on chunks is not reached. The
server is any sequence of answers, the `n`-th one to the `n`-th page request. Only a page with
rows counts as a chunk, so pages without rows are fetched outside the cap.
-/
namespace DbtNova.BigqueryPaging
open BoundedCollect StepLoop JsonValue

/-! ## Responses -/

structure QueryField where
  name : String
  fieldType : String
  deriving DecidableEq, Repr

structure QueryError where
  message : Option String := none
  reason : Option String := none
  deriving DecidableEq, Repr

structure QueryStatus where
  errorResult : Option QueryError := none
  errors : Option (List QueryError) := none
  deriving DecidableEq, Repr

/-- The part of a response that the paging loop reads; a row is the list of its cells. -/
structure QueryResponse where
  schema : Option (List QueryField) := none
  rows : Option (List (List JsonValue)) := none
  pageToken : Option String := none
  totalRows : Option String := none
  totalBytesProcessed : Option String := none
  errors : Option (List QueryError) := none
  status : Option QueryStatus := none

def bqErr (message : String) : DbtNovaError := .serverError s!"BigQuery error: {message}"

section Errors
variable (toLowercase : List Char → List Char)

def formatQueryError (error : QueryError) : String :=
  let reason := ((error.reason.map fun reason =>
    String.ofList (Redaction.redactSensitiveText toLowercase reason.toList)).filter
      (Text.trim · ≠ "")).getD "unknown_reason"
  if error.message.any (Text.trim · ≠ "") then s!"{reason}: message redacted" else reason

def queryError (response : QueryResponse) : Option String :=
  let reported := (response.status.bind QueryStatus.errorResult).or
    (((response.status.bind QueryStatus.errors).bind List.head?).or
      (response.errors.bind List.head?))
  reported.map (formatQueryError toLowercase)

end Errors

/-- The digits of a number after an optional plus sign, when it fits 64 bits. -/
def parseU64 (text : String) : Option ℕ :=
  match text.toList with
  | '+' :: digits => asU64 (.number (String.ofList digits))
  | _ => asU64 (.number text)

/-- A number with an optional sign, within 64 bits. -/
def parseI64 (text : String) : Option ℤ :=
  match text.toList with
  | '-' :: digits =>
      (asU64 (.number (String.ofList digits))).bind fun n =>
        if n ≤ 2 ^ 63 then some (-n) else none
  | _ => (parseU64 text).bind fun n => if n < 2 ^ 63 then some n else none

section Cells
variable (parseF64 : String → Option JsonValue)

/-- `parseF64` reads a floating-point number and writes it as a JSON value. -/
def parseCellValue (value : JsonValue) (fieldType : String) : JsonValue :=
  match value with
  | .string text =>
      let upper := Text.toAsciiUppercase fieldType
      if upper ∈ ["INT64", "INTEGER"] then
        ((parseI64 text).map fun n => JsonValue.number (toString n)).getD (.string text)
      else if upper ∈ ["FLOAT64", "FLOAT", "NUMERIC", "BIGNUMERIC"] then
        (parseF64 text).getD (.string text)
      else if upper ∈ ["BOOL", "BOOLEAN"] then
        if Text.toAsciiLowercase text = "true" then .bool true
        else if Text.toAsciiLowercase text = "false" then .bool false
        else .string text
      else .string text
  | value => value

def outputRow (fields : List QueryField) (row : List JsonValue) : List JsonValue :=
  fields.mapIdx fun i field => parseCellValue parseF64 (row.getD i .null) field.fieldType

/-- The length of the serialized row, which cannot fail for a JSON value. -/
def rowBytes (row : List JsonValue) : ℕ := Utf8.byteLen (JsonValue.array row).chars

/-! ## The loop -/

/-- The settings of one statement; the cap on chunks is a machine word. -/
structure PagingSettings extends Warehouse.ExecuteSettings where
  maxChunks_lt : maxChunks < 2 ^ 64

/-- The variables of the loop, and the number of page requests made. The names and types of
the columns are those of `fields`. -/
structure Paging where
  fields : List QueryField
  acc : Collected (List JsonValue)
  fetchedChunks : ℕ
  totalRowCount : Option ℕ
  totalByteCount : Option ℕ
  nextPageToken : Option String
  fetches : ℕ := 0

def appendRows (settings : PagingSettings) (fields : List QueryField)
    (acc : Collected (List JsonValue)) (chunkRows : List (List JsonValue)) :
    Collected (List JsonValue) :=
  Warehouse.appendRows rowBytes settings.toExecuteSettings acc
    (chunkRows.map (outputRow parseF64 fields))

/-- The state before the loop. -/
def startPaging (settings : PagingSettings) (response : QueryResponse) : Paging :=
  let fields := response.schema.getD []
  let acc :=
    match response.rows with
    | some rows => appendRows parseF64 settings fields {} rows
    | none => {}
  { fields := fields
    acc :=
      if !settings.fetchAllChunks && response.pageToken.isSome then { acc with truncated := true }
      else acc
    fetchedChunks := if response.rows.isSome then saturatingAdd 0 1 else 0
    totalRowCount := response.totalRows.bind parseU64
    totalByteCount := response.totalBytesProcessed.bind parseU64
    nextPageToken := response.pageToken }

def takePage (settings : PagingSettings) (paging : Paging) (page : QueryResponse) : Paging :=
  let fields := if paging.fields.isEmpty then page.schema.getD paging.fields else paging.fields
  { fields := fields
    acc :=
      match page.rows with
      | some rows => appendRows parseF64 settings fields paging.acc rows
      | none => paging.acc
    fetchedChunks :=
      if page.rows.isSome then saturatingAdd paging.fetchedChunks 1 else paging.fetchedChunks
    totalRowCount := paging.totalRowCount.or (page.totalRows.bind parseU64)
    totalByteCount := paging.totalByteCount.or (page.totalBytesProcessed.bind parseU64)
    nextPageToken := page.pageToken
    fetches := paging.fetches + 1 }

/-- How the loop ends: with an error or with the variables it leaves. -/
structure PagingEnd where
  fetches : ℕ
  outcome : Result Paging

variable (toLowercase : List Char → List Char) (server : ℕ → Result QueryResponse)

/-- One pass through the body of the loop, its condition included. -/
def pageBody (settings : PagingSettings) (paging : Paging) : Paging ⊕ PagingEnd :=
  if settings.fetchAllChunks && !paging.acc.truncated then
    match paging.nextPageToken with
    | none => .inr ⟨paging.fetches, .ok paging⟩
    | some _ =>
        if settings.maxChunks ≤ paging.fetchedChunks then
          .inr ⟨paging.fetches,
            .ok { paging with acc := { paging.acc with truncated := true }, nextPageToken := none }⟩
        else
          match server paging.fetches with
          | .error err => .inr ⟨paging.fetches + 1, .error err⟩
          | .ok page =>
              match queryError toLowercase page with
              | some err => .inr ⟨paging.fetches + 1, .error (bqErr s!"query failed: {err}")⟩
              | none => .inl (takePage parseF64 settings paging page)
  else .inr ⟨paging.fetches, .ok paging⟩

/-- What the caller gets of the result. -/
structure QueryExecutionResult where
  columns : List String
  columnTypes : List String
  rows : List (List JsonValue)
  fetchedChunks : ℕ
  totalRowCount : Option ℕ
  totalByteCount : Option ℕ
  truncated : Bool

def Paging.result (paging : Paging) : QueryExecutionResult where
  columns := paging.fields.map QueryField.name
  columnTypes := paging.fields.map QueryField.fieldType
  rows := paging.acc.items
  fetchedChunks := paging.fetchedChunks
  totalRowCount := paging.totalRowCount
  totalByteCount := paging.totalByteCount
  truncated := paging.acc.truncated

/-- The paging returns after at most `n` page requests. -/
def ReturnsWithin (settings : PagingSettings) (first : QueryResponse) (n : ℕ) : Prop :=
  ∃ finish, Returns (pageBody parseF64 toLowercase server settings)
    (startPaging parseF64 settings first) finish ∧ finish.fetches ≤ n

end Cells

/-! ## What the answers hold -/

section Answers
variable (parseF64 : String → Option JsonValue) (toLowercase : List Char → List Char)
  (settings : PagingSettings) (first : QueryResponse) (server : ℕ → Result QueryResponse)

/-- The `k`-th page, when the request succeeds. -/
def pageAt (k : ℕ) : Option QueryResponse := (server k).toOption

/-- The columns after `k` pages: those of the first response that names some. -/
def fieldsAt : ℕ → List QueryField
  | 0 => first.schema.getD []
  | k + 1 =>
      if (fieldsAt k).isEmpty then ((pageAt server k).bind QueryResponse.schema).getD (fieldsAt k)
      else fieldsAt k

/-- The rows of the first response and of `k` pages. -/
def rowsAt : ℕ → List (List JsonValue)
  | 0 => (first.rows.getD []).map (outputRow parseF64 (fieldsAt first server 0))
  | k + 1 => rowsAt k ++ (((pageAt server k).bind QueryResponse.rows).getD []).map
      (outputRow parseF64 (fieldsAt first server (k + 1)))

def hasRows (k : ℕ) : Bool := ((pageAt server k).bind QueryResponse.rows).isSome

def firstChunks : ℕ := if first.rows.isSome then 1 else 0

def chunksAt (k : ℕ) : ℕ := firstChunks first + (List.range k).countP (hasRows server)

def emptyPages (k : ℕ) : ℕ := (List.range k).countP fun i => !hasRows server i

def tokenAt : ℕ → Option String
  | 0 => first.pageToken
  | k + 1 => (pageAt server k).bind QueryResponse.pageToken

/-- The loop would make a request after `k` pages. -/
structure Asks (k : ℕ) : Prop where
  fits : Fits rowBytes settings.limits (rowsAt parseF64 first server k)
  token : (tokenAt first server k).isSome
  chunks : chunksAt first server k < settings.maxChunks

/-- The `k`-th request is answered by a page without an error. -/
def Answers (k : ℕ) : Prop := ∃ page, server k = .ok page ∧ queryError toLowercase page = none

/-- The state after `k` pages. -/
structure Reached (k : ℕ) (paging : Paging) : Prop where
  fetches : paging.fetches = k
  fields : paging.fields = fieldsAt first server k
  token : paging.nextPageToken = tokenAt first server k
  chunks : paging.fetchedChunks = chunksAt first server k
  collects : Collects rowBytes settings.limits (rowsAt parseF64 first server k) paging.acc
  ongoing : paging.acc.truncated = false → Ongoing rowBytes settings.limits paging.acc

/-- The server hands out tokens and enough pages without rows to keep the loop going. -/
structure KeepsPaging : Prop where
  all : settings.fetchAllChunks = true
  starts : first.pageToken.isSome
  pages : ∀ k < settings.maxChunks, ∃ page, server k = .ok page ∧
    queryError toLowercase page = none ∧ page.pageToken.isSome
  fits : Fits rowBytes settings.limits (rowsAt parseF64 first server settings.maxChunks)
  empty : firstChunks first < emptyPages server settings.maxChunks

end Answers

section Loop
variable {parseF64 : String → Option JsonValue} {toLowercase : List Char → List Char}
  {settings : PagingSettings} {first : QueryResponse} {server : ℕ → Result QueryResponse}
  {k : ℕ} {paging : Paging}

theorem appendRows_optional (fields : List QueryField) (acc : Collected (List JsonValue))
    (rows : Option (List (List JsonValue))) :
    (match rows with
      | some rows => appendRows parseF64 settings fields acc rows
      | none => acc) =
      collect rowBytes settings.limits acc ((rows.getD []).map (outputRow parseF64 fields)) := by
  cases rows <;> rfl

theorem reached_start (hall : settings.fetchAllChunks = true) :
    Reached parseF64 settings first server 0 (startPaging parseF64 settings first) := by
  have hacc : (startPaging parseF64 settings first).acc = collect rowBytes settings.limits {}
      (rowsAt parseF64 first server 0) := by
    unfold startPaging
    simp only [hall, Bool.not_true, Bool.false_and, Bool.false_eq_true, if_false]
    exact appendRows_optional _ _ _
  have hempty : Ongoing rowBytes settings.limits {} := empty_ongoing
  obtain ⟨hcollects, hmore⟩ := collect_spec hempty (rowsAt parseF64 first server 0)
  refine ⟨rfl, rfl, rfl, ?_, ?_, ?_⟩
  · simp only [startPaging, chunksAt, firstChunks, List.range_zero, List.countP_nil]
    split <;> rfl
  · rw [hacc]
    exact hcollects
  · rw [hacc]
    exact fun hflag => (hmore hflag).1

theorem chunksAt_succ (k : ℕ) :
    chunksAt first server (k + 1) =
      chunksAt first server k + if hasRows server k then 1 else 0 := by
  unfold chunksAt
  rw [List.range_succ, List.countP_append, List.countP_singleton, Nat.add_assoc]

/-- A page that is taken leads to the state after it. -/
theorem reached_takePage (h : Reached parseF64 settings first server k paging)
    (hflag : paging.acc.truncated = false)
    (hchunks : chunksAt first server k < settings.maxChunks) {page : QueryResponse}
    (hpage : server k = .ok page) :
    Reached parseF64 settings first server (k + 1)
      (takePage parseF64 settings paging page) := by
  have hat : pageAt server k = some page := by
    unfold pageAt
    rw [hpage]
    rfl
  have hfields : (takePage parseF64 settings paging page).fields =
      fieldsAt first server (k + 1) := by
    simp only [takePage, fieldsAt, h.fields, hat, Option.bind_some]
  have hrows : rowsAt parseF64 first server (k + 1) = paging.acc.items ++
      (page.rows.getD []).map (outputRow parseF64 (fieldsAt first server (k + 1))) := by
    rw [rowsAt, hat, h.collects.eq_of_not_truncated hflag, Option.bind_some]
  have hacc : (takePage parseF64 settings paging page).acc = collect rowBytes settings.limits
      paging.acc
      ((page.rows.getD []).map (outputRow parseF64 (fieldsAt first server (k + 1)))) := by
    rw [← hfields]
    exact appendRows_optional _ _ _
  obtain ⟨hcollects, hmore⟩ := collect_spec (h.ongoing hflag)
    ((page.rows.getD []).map (outputRow parseF64 (fieldsAt first server (k + 1))))
  refine ⟨?_, hfields, ?_, ?_, ?_, ?_⟩
  · exact congrArg (· + 1) h.fetches
  · simp only [takePage, tokenAt, hat, Option.bind_some]
  · have hword : saturatingAdd (chunksAt first server k) 1 = chunksAt first server k + 1 := by
      have := settings.maxChunks_lt
      unfold saturatingAdd
      omega
    have hhas : hasRows server k = page.rows.isSome := by
      unfold hasRows
      rw [hat, Option.bind_some]
    simp only [takePage, h.chunks, chunksAt_succ, hhas, hword]
    split <;> rfl
  · rw [hrows, hacc]
    exact hcollects
  · rw [hacc]
    exact fun hnext => (hmore hnext).1

theorem Reached.truncated_iff (h : Reached parseF64 settings first server k paging) :
    paging.acc.truncated = false ↔
      Fits rowBytes settings.limits (rowsAt parseF64 first server k) := by
  rw [← not_iff_not, ← h.collects.flag, Bool.not_eq_false]

theorem pageBody_stops (h : Reached parseF64 settings first server k paging)
    (hasks : ¬ Asks parseF64 settings first server k) :
    ∃ finish, pageBody parseF64 toLowercase server settings paging = .inr finish ∧
      finish.fetches = k := by
  unfold pageBody
  split
  · rename_i hguard
    have hflag : paging.acc.truncated = false := by simp at hguard; exact hguard.2
    cases htoken : paging.nextPageToken with
    | none => exact ⟨_, rfl, h.fetches⟩
    | some token =>
        have hcap : settings.maxChunks ≤ paging.fetchedChunks := by
          by_contra hlt
          refine hasks ⟨h.truncated_iff.mp hflag, ?_, ?_⟩
          · rw [← h.token, htoken]
            rfl
          · rw [← h.chunks]
            omega
        simp only [if_pos hcap]
        exact ⟨_, rfl, h.fetches⟩
  · exact ⟨_, rfl, h.fetches⟩

/-- A request is made; an error ends the loop, and a page is taken. -/
theorem pageBody_asks (h : Reached parseF64 settings first server k paging)
    (hall : settings.fetchAllChunks = true) (hasks : Asks parseF64 settings first server k) :
    (Answers toLowercase server k →
      ∃ next, pageBody parseF64 toLowercase server settings paging = .inl next ∧
        Reached parseF64 settings first server (k + 1) next) ∧
    (¬ Answers toLowercase server k →
      ∃ finish, pageBody parseF64 toLowercase server settings paging = .inr finish ∧
        finish.fetches = k + 1) := by
  have hflag : paging.acc.truncated = false := h.truncated_iff.mpr hasks.fits
  have hchunks : ¬ settings.maxChunks ≤ paging.fetchedChunks := by
    have := hasks.chunks
    rw [h.chunks]
    omega
  obtain ⟨token, htoken⟩ := Option.isSome_iff_exists.mp hasks.token
  unfold pageBody
  simp only [hall, hflag, Bool.not_false, Bool.and_true, if_true, h.token, htoken,
    if_neg hchunks, h.fetches]
  constructor
  · rintro ⟨page, hpage, herror⟩
    simp only [hpage, herror]
    exact ⟨_, rfl, reached_takePage h hflag hasks.chunks hpage⟩
  · intro hanswers
    cases hpage : server k with
    | error err => exact ⟨⟨k + 1, .error err⟩, rfl, rfl⟩
    | ok page =>
        cases herror : queryError toLowercase page with
        | none => exact absurd ⟨page, hpage, herror⟩ hanswers
        | some err =>
            simp only [herror]
            exact ⟨_, rfl, rfl⟩

/-- As long as requests are made and answered, the loop goes through its states. -/
theorem exists_reached (hall : settings.fetchAllChunks = true)
    (hpages : ∀ i < k, Asks parseF64 settings first server i ∧ Answers toLowercase server i) :
    ∃ paging, Reached parseF64 settings first server k paging ∧
      ∀ finish, Returns (pageBody parseF64 toLowercase server settings)
          (startPaging parseF64 settings first) finish ↔
        Returns (pageBody parseF64 toLowercase server settings) paging finish := by
  induction k with
  | zero => exact ⟨_, reached_start hall, fun _ => Iff.rfl⟩
  | succ k ih =>
      obtain ⟨paging, hreached, hreturns⟩ := ih fun i hi => hpages i (by omega)
      obtain ⟨hasks, hanswers⟩ := hpages k (by omega)
      obtain ⟨next, hbody, hnext⟩ := (pageBody_asks hreached hall hasks).1 hanswers
      exact ⟨next, hnext, fun finish => (hreturns finish).trans (returns_next hbody)⟩

theorem fetches_le {finish : PagingEnd}
    (h : Returns (pageBody parseF64 toLowercase server settings) paging finish) :
    paging.fetches ≤ finish.fetches := by
  refine h.invariant (fun state => paging.fetches ≤ state.fetches)
    (fun finish => paging.fetches ≤ finish.fetches) (Nat.le_refl _) ?_ ?_
  · intro state next hle hbody
    unfold pageBody at hbody
    split at hbody
    · split at hbody
      · contradiction
      · split at hbody
        · contradiction
        · split at hbody
          · contradiction
          · split at hbody
            · contradiction
            · rw [← Sum.inl.inj hbody]
              exact Nat.le_succ_of_le hle
    · contradiction
  · intro state stop hle hbody
    unfold pageBody at hbody
    split at hbody
    · split at hbody
      · rw [← Sum.inr.inj hbody]
        exact hle
      · split at hbody
        · rw [← Sum.inr.inj hbody]
          exact hle
        · split at hbody
          · rw [← Sum.inr.inj hbody]
            exact Nat.le_succ_of_le hle
          · split at hbody
            · rw [← Sum.inr.inj hbody]
              exact Nat.le_succ_of_le hle
            · contradiction
    · rw [← Sum.inr.inj hbody]
      exact hle

/-- The cap is kept unless one more request than it allows is made. -/
theorem returnsWithin_iff_asks (hall : settings.fetchAllChunks = true) :
    ReturnsWithin parseF64 toLowercase server settings first settings.maxChunks ↔
      ¬ ((∀ i < settings.maxChunks,
          Asks parseF64 settings first server i ∧ Answers toLowercase server i) ∧
        Asks parseF64 settings first server settings.maxChunks) := by
  constructor
  · rintro ⟨finish, hfinish, hbound⟩ ⟨hpages, hasks⟩
    obtain ⟨paging, hreached, hreturns⟩ := exists_reached hall hpages
    have hfrom := (hreturns finish).mp hfinish
    by_cases hanswers : Answers toLowercase server settings.maxChunks
    · obtain ⟨next, hbody, hnext⟩ := (pageBody_asks hreached hall hasks).1 hanswers
      have hle := fetches_le ((returns_next hbody).mp hfrom)
      rw [hnext.fetches] at hle
      omega
    · obtain ⟨stop, hbody, hstop⟩ := (pageBody_asks hreached hall hasks).2 hanswers
      rw [(returns_stop hbody).mp hfrom] at hbound
      omega
  · intro hnot
    classical
    by_cases hpages : ∀ i < settings.maxChunks,
        Asks parseF64 settings first server i ∧ Answers toLowercase server i
    · obtain ⟨paging, hreached, hreturns⟩ := exists_reached hall hpages
      obtain ⟨stop, hbody, hstop⟩ := pageBody_stops hreached fun hasks => hnot ⟨hpages, hasks⟩
      exact ⟨stop, (hreturns stop).mpr ((returns_stop hbody).mpr rfl), hstop.le⟩
    · -- the first page at which the loop does not go on
      push Not at hpages
      have hfirst := Nat.find_spec hpages
      set k := Nat.find hpages
      have hbefore : ∀ i < k,
          Asks parseF64 settings first server i ∧ Answers toLowercase server i := by
        intro i hi
        have hmin := Nat.find_min hpages hi
        push Not at hmin
        exact hmin (by omega)
      obtain ⟨paging, hreached, hreturns⟩ := exists_reached hall hbefore
      by_cases hasks : Asks parseF64 settings first server k
      · obtain ⟨stop, hbody, hstop⟩ := (pageBody_asks hreached hall hasks).2 (hfirst.2 hasks)
        exact ⟨stop, (hreturns stop).mpr ((returns_stop hbody).mpr rfl), by omega⟩
      · obtain ⟨stop, hbody, hstop⟩ := pageBody_stops hreached hasks
        exact ⟨stop, (hreturns stop).mpr ((returns_stop hbody).mpr rfl), by omega⟩

/-! ## The condition on the answers -/

theorem rowsAt_front {m n : ℕ} (h : m ≤ n) :
    rowsAt parseF64 first server m <+: rowsAt parseF64 first server n := by
  induction n, h using Nat.le_induction with
  | base => exact List.prefix_refl _
  | succ n _ ih =>
      rw [rowsAt]
      exact ih.trans (List.prefix_append _ _)

theorem chunksAt_mono {m n : ℕ} (h : m ≤ n) :
    chunksAt first server m ≤ chunksAt first server n := by
  induction n, h using Nat.le_induction with
  | base => exact Nat.le_refl _
  | succ n _ ih =>
      rw [chunksAt_succ]
      omega

theorem chunksAt_add_emptyPages (k : ℕ) :
    chunksAt first server k + emptyPages server k = firstChunks first + k := by
  have hsplit : (List.range k).countP (hasRows server) + emptyPages server k = k := by
    have hcount := List.length_eq_countP_add_countP (hasRows server) (l := List.range k)
    rw [List.length_range] at hcount
    unfold emptyPages
    simp only [Bool.not_eq_true, Bool.decide_eq_false] at hcount
    exact hcount.symm
  unfold chunksAt
  omega

theorem keepsPaging_iff (hall : settings.fetchAllChunks = true) :
    KeepsPaging parseF64 toLowercase settings first server ↔
      (∀ i < settings.maxChunks,
          Asks parseF64 settings first server i ∧ Answers toLowercase server i) ∧
        Asks parseF64 settings first server settings.maxChunks := by
  have hcount : chunksAt first server settings.maxChunks +
      emptyPages server settings.maxChunks = firstChunks first + settings.maxChunks :=
    chunksAt_add_emptyPages settings.maxChunks
  have hpageAt : ∀ {k : ℕ} {page : QueryResponse}, server k = .ok page →
      pageAt server k = some page := by
    intro k page hpage
    unfold pageAt
    rw [hpage]
    rfl
  constructor
  · intro h
    have htoken : ∀ i ≤ settings.maxChunks, (tokenAt first server i).isSome := by
      intro i hi
      cases i with
      | zero => exact h.starts
      | succ i =>
          obtain ⟨page, hpage, -, htoken⟩ := h.pages i (by omega)
          rw [tokenAt, hpageAt hpage]
          exact htoken
    have hempty := h.empty
    have hasks : ∀ i ≤ settings.maxChunks, Asks parseF64 settings first server i := by
      intro i hi
      have hmono : chunksAt first server i ≤ chunksAt first server settings.maxChunks :=
        chunksAt_mono hi
      exact ⟨h.fits.mono (rowsAt_front hi), htoken i hi, by omega⟩
    refine ⟨fun i hi => ⟨hasks i (by omega), ?_⟩, hasks _ (Nat.le_refl _)⟩
    obtain ⟨page, hpage, herror, -⟩ := h.pages i hi
    exact ⟨page, hpage, herror⟩
  · rintro ⟨hpages, hasks⟩
    have htoken : ∀ i ≤ settings.maxChunks, (tokenAt first server i).isSome := by
      intro i hi
      cases Nat.lt_or_eq_of_le hi with
      | inl hlt => exact (hpages i hlt).1.token
      | inr heq => exact heq ▸ hasks.token
    have hchunks := hasks.chunks
    refine ⟨hall, htoken 0 (by omega), fun i hi => ?_, hasks.fits, by omega⟩
    obtain ⟨page, hpage, herror⟩ := (hpages i hi).2
    refine ⟨page, hpage, herror, ?_⟩
    have hnext := htoken (i + 1) (by omega)
    rw [tokenAt, hpageAt hpage] at hnext
    exact hnext

end Loop

/-- The paging makes at most `max_chunks` page requests and returns, unless all of the first
`max_chunks` requests are answered with a token, no limit is reached by then, and more of
these pages have no rows than the first response has chunks. -/
theorem returns_within_max_chunks_iff (parseF64 : String → Option JsonValue)
    (toLowercase : List Char → List Char) (settings : PagingSettings) (first : QueryResponse)
    (server : ℕ → Result QueryResponse) :
    ReturnsWithin parseF64 toLowercase server settings first settings.maxChunks ↔
      ¬ KeepsPaging parseF64 toLowercase settings first server := by
  by_cases hall : settings.fetchAllChunks = true
  · rw [returnsWithin_iff_asks hall, keepsPaging_iff hall]
  · refine iff_of_true ⟨⟨0, .ok (startPaging parseF64 settings first)⟩, ?_, Nat.zero_le _⟩
      fun h => hall h.all
    have hbody : pageBody parseF64 toLowercase server settings
        (startPaging parseF64 settings first) =
        .inr ⟨0, .ok (startPaging parseF64 settings first)⟩ := by
      unfold pageBody
      simp only [hall, Bool.false_and, Bool.false_eq_true, if_false]
      rfl
    exact (returns_stop hbody).mpr rfl

/-! ### A server that sends tokens without rows -/

def oneChunk : PagingSettings where
  rowLimit := 1000
  byteLimit := 25000000
  fetchAllChunks := true
  maxChunks := 1
  maxChunks_lt := by decide

def tokenOnly : QueryResponse := { pageToken := some "next" }

/-- One chunk is allowed, and the loop asks for pages without end. -/
theorem tokens_without_rows :
    ¬ ReturnsWithin (fun _ => none) id (fun _ => .ok tokenOnly) oneChunk tokenOnly
        oneChunk.maxChunks ∧
      ¬ ∃ finish, Returns (pageBody (fun _ => none) id (fun _ => .ok tokenOnly) oneChunk)
        (startPaging (fun _ => none) oneChunk tokenOnly) finish := by
  have hnever : ∀ finish, ¬ Returns (pageBody (fun _ => none) id (fun _ => .ok tokenOnly) oneChunk)
      (startPaging (fun _ => none) oneChunk tokenOnly) finish := by
    refine not_returns (fun paging => paging.acc.truncated = false ∧
      paging.nextPageToken = some "next" ∧ paging.fetchedChunks = 0) ⟨rfl, rfl, rfl⟩ ?_
    rintro paging ⟨hflag, htoken, hchunks⟩
    refine ⟨takePage (fun _ => none) oneChunk paging tokenOnly, ?_, hflag, rfl, hchunks⟩
    simp [pageBody, hflag, htoken, hchunks, oneChunk, tokenOnly, queryError]
  exact ⟨fun ⟨finish, hfinish, _⟩ => hnever finish hfinish,
    fun ⟨finish, hfinish⟩ => hnever finish hfinish⟩

end DbtNova.BigqueryPaging
