import DbtNova.ExtendedMeta
import DbtNova.ManifestSignature
import Mathlib.Algebra.Order.BigOperators.Group.List
import Mathlib.Data.List.Forall2

/-!
# The lexical search index

What a build writes: the schema, the tokenizers registered with the index and one
document for each stored entity. A document is the sequence of the texts added to
its fields; what it holds is, for each field, the texts in the order in which they
were added. Reading and writing files is left out.
-/
namespace DbtNova.SearchIndex

open Text JsonValue EntityMeta ExtendedMeta

inductive IndexField where
  | uniqueId
  | entityAlias
  | aliasCode
  | aliasNgram
  | name
  | nameCode
  | nameNgram
  | description
  | columns
  | columnsCode
  | columnsNgram
  | tags
  | tagsCode
  | tagsNgram
  | filePath
  | filePathCode
  | rawCode
  | resourceType
  | packageName
  | novaSynonyms
  | novaDomains
  | novaUseCases
  | novaMeasures
  | novaMetric
  | novaSensitivity
  | novaPii
  | novaCompliance
  | extended (metaAlias : String)
  deriving DecidableEq, Repr

/-! ## Schema and tokenizers -/

inductive TextOptions where
  | keyword
  | indexed (tokenizer : String) (stored : Bool)
  deriving DecidableEq, Repr

def simpleOptions : TextOptions := .indexed "simple_lower" true

def stemmedOptions : TextOptions := .indexed "text_en" true

def codeOptions : TextOptions := .indexed "code_lower" false

def codeStoredOptions : TextOptions := .indexed "code_lower" true

def ngramOptions : TextOptions := .indexed "ngram" false

def extendedMetaFieldName (metaAlias : String) : String := "meta." ++ trim metaAlias

def extendedOptions : ExtendedMetaFieldMode → TextOptions
  | .keyword | .stringArray | .bool => codeStoredOptions
  | .text => stemmedOptions

def buildSchema (config : SearchConfig) : List (String × TextOptions) :=
  [("unique_id", .keyword), ("alias", simpleOptions), ("alias_code", codeOptions),
    ("alias_ngram", ngramOptions), ("name", simpleOptions), ("name_code", codeOptions),
    ("name_ngram", ngramOptions), ("description", stemmedOptions), ("columns", simpleOptions),
    ("columns_code", codeOptions), ("columns_ngram", ngramOptions), ("tags", simpleOptions),
    ("tags_code", codeOptions), ("tags_ngram", ngramOptions), ("file_path", simpleOptions),
    ("file_path_code", codeOptions), ("raw_code", simpleOptions), ("resource_type", .keyword),
    ("package_name", .keyword), ("nova_synonyms", simpleOptions),
    ("nova_domains", simpleOptions), ("nova_use_cases", simpleOptions),
    ("nova_measures", codeOptions), ("nova_metric", codeOptions),
    ("nova_sensitivity", simpleOptions), ("nova_pii", simpleOptions),
    ("nova_compliance", simpleOptions)] ++
  (sortedExtendedMetaFields config.extendedMeta).map fun field =>
    (extendedMetaFieldName field.fieldAlias, extendedOptions field.mode)

inductive Tokenizer where
  | simple
  | regex (pattern : String)
  | ngram (least most : ℕ) (prefixOnly : Bool)
  deriving DecidableEq, Repr

inductive TokenFilter where
  | lowerCaser
  | englishStemmer
  deriving DecidableEq, Repr

structure TextAnalyzer where
  tokenizer : Tokenizer
  filters : List TokenFilter
  deriving DecidableEq, Repr

/-- What the search library answers to a range of n-gram sizes: nothing, or why it
refuses them. -/
abbrev NgramCheck := ℕ → ℕ → Option String

def ngramSizes (config : SearchConfig) : ℕ × ℕ := (max config.ngramMin 1, max config.ngramMax 1)

def tokenizerTable (sizes : ℕ × ℕ) : List (String × TextAnalyzer) :=
  [("simple_lower", ⟨.simple, [.lowerCaser]⟩),
    ("text_en", ⟨.simple, [.lowerCaser, .englishStemmer]⟩),
    ("code_lower", ⟨.regex "[A-Za-z0-9_]+", [.lowerCaser]⟩),
    ("ngram", ⟨.ngram sizes.1 sizes.2 false, [.lowerCaser]⟩)]

def registerTokenizers (check : NgramCheck) (config : SearchConfig) :
    Result (List (String × TextAnalyzer)) :=
  let sizes := ngramSizes config
  match check sizes.1 sizes.2 with
  | some e => .error (.serverError s!"Failed to build ngram tokenizer: {e}")
  | none => .ok (tokenizerTable sizes)

/-! ## Documents -/

abbrev Document := List (IndexField × String)

/-- The texts of one field. -/
def texts (doc : Document) (field : IndexField) : List String :=
  (doc.filter fun added => added.1 = field).map Prod.snd

/-- Each field holds the same texts. -/
def SameDocument (d d' : Document) : Prop := ∀ field, texts d field = texts d' field

def addTexts (field : IndexField) (values : List String) : Document := values.map (field, ·)

/-- What the build reads besides the configuration. -/
structure IndexInput where
  entities : List (String × Entity)
  resourceTypes : String → Option String
  filePaths : String → Option String
  tagsById : String → Option (List String)

/-- A text in its plain, code and n-gram field. -/
def addSearchable (config : SearchConfig) (plain code ngram : IndexField) (text : Option String) :
    Document :=
  addTexts plain text.toList ++ addTexts code text.toList ++
    addTexts ngram (if config.enableNgram then text.toList else [])

def nonEmptyStrings (values : List JsonValue) : List String :=
  (values.filterMap asStr).filter (· != "")

def getNonEmpty (value : JsonValue) (key : String) : List String :=
  ((value.getStr key).filter (· != "")).toList

def columnTokens (column : String × JsonValue) : List String :=
  let nova := (columnNovaMetaJson column.2).getD .null
  column.1 :: (nova.getStr "semantic_type").toList ++
    nonEmptyStrings (nova.getArray "synonyms") ++ nonEmptyStrings (nova.getArray "example_values")

def joinTexts (tokens : List String) : Option String :=
  if tokens.isEmpty then none else some (String.intercalate " " tokens)

def columnsText (entityJson : JsonValue) : Option String :=
  ((entityJson.get "columns").bind asObject).bind fun columns =>
    joinTexts (columns.flatMap columnTokens)

def tagsText (input : IndexInput) (uniqueId : String) : Option String :=
  (input.tagsById uniqueId).bind joinTexts

def sqlTexts (entityJson : JsonValue) : List String :=
  ["raw_code", "macro_sql", "block_contents"].filterMap entityJson.getStr

def cappedText (maxBytes : ℕ) (text : String) : Option String :=
  if maxBytes = 0 then none
  else
    let stop := floorCharBoundary text (min (byteLength text) maxBytes)
    if stop = 0 then none else sliceTo text stop

def measureTexts (measure : JsonValue) : List String :=
  getNonEmpty measure "name" ++ nonEmptyStrings (measure.getArray "synonyms") ++
    getNonEmpty measure "description" ++ getNonEmpty measure "expression" ++
    getNonEmpty measure "field"

def metricTexts (metric : JsonValue) : List String :=
  getNonEmpty metric "name" ++ getNonEmpty metric "description" ++
    getNonEmpty metric "expression" ++ nonEmptyStrings (metric.getArray "synonyms")

def piiTexts : JsonValue → List String
  | .bool true => ["pii", "true"]
  | .string text => if text = "" then [] else ["pii", text]
  | .array values => "pii" :: nonEmptyStrings values
  | _ => []

/-- Reading a key of anything but an object gives nothing. -/
def addNovaMeta (entityJson : JsonValue) : Document :=
  let nova := (entityNovaMetaJson entityJson).getD .null
  let governance := (nova.get "governance").getD .null
  addTexts .novaSynonyms (nonEmptyStrings (nova.getArray "synonyms")) ++
    addTexts .novaDomains (nonEmptyStrings (nova.getArray "domains")) ++
    addTexts .novaUseCases (nonEmptyStrings (nova.getArray "use_cases")) ++
    addTexts .novaMeasures ((nova.getArray "measures").flatMap measureTexts) ++
    addTexts .novaMetric (metricTexts ((nova.get "metric").getD .null)) ++
    addTexts .novaMetric ((nova.getArray "metrics").flatMap metricTexts) ++
    addTexts .novaSensitivity (getNonEmpty governance "sensitivity") ++
    addTexts .novaPii (piiTexts ((governance.get "pii").getD .null)) ++
    addTexts .novaCompliance (nonEmptyStrings (governance.getArray "compliance"))

def extendedTexts (entityJson : JsonValue) (extendedMeta : ExtendedMetaSearchConfig)
    (path : ExtendedMetaPath) (mode : ExtendedMetaFieldMode) : List String :=
  (collectCappedExtendedMetaValues entityJson path mode
    extendedMeta.maxValuesPerField extendedMeta.maxBytesPerValue).values.map (·.value)

def addExtendedMetaFields (entityJson : JsonValue) (extendedMeta : ExtendedMetaSearchConfig) :
    Document :=
  (sortedExtendedMetaFields extendedMeta).flatMap fun field =>
    addTexts (.extended (trim field.fieldAlias))
      (extendedTexts entityJson extendedMeta (fromConfigPath field.path) field.mode)

def document (input : IndexInput) (config : SearchConfig) (stored : String × Entity) : Document :=
  let (uniqueId, entity) := stored
  let entityJson := entity.payload
  let path := (input.filePaths uniqueId).toList
  addTexts .uniqueId [uniqueId] ++
    addSearchable config .entityAlias .aliasCode .aliasNgram entity.entityAlias ++
    addSearchable config .name .nameCode .nameNgram entity.name ++
    addTexts .description (entity.description.filter (· != "")).toList ++
    addSearchable config .columns .columnsCode .columnsNgram (columnsText entityJson) ++
    addSearchable config .tags .tagsCode .tagsNgram (tagsText input uniqueId) ++
    addTexts .filePath path ++ addTexts .filePathCode path ++
    addTexts .rawCode ((sqlTexts entityJson).filterMap (cappedText config.maxSqlChunkBytes)) ++
    addTexts .resourceType ((input.resourceTypes uniqueId).or entity.resourceType).toList ++
    addTexts .packageName entity.packageName.toList ++
    addNovaMeta entityJson ++
    addExtendedMetaFields entityJson config.extendedMeta

structure Index where
  schema : List (String × TextOptions)
  tokenizers : List (String × TextAnalyzer)
  documents : List Document

def build (check : NgramCheck) (input : IndexInput) (config : SearchConfig) : Result Index := do
  let tokenizers ← registerTokenizers check config
  pure ⟨buildSchema config, tokenizers, input.entities.map (document input config)⟩

/-- An index of another schema is not opened. The tokenizers are registered anew. -/
def openIndex (check : NgramCheck) (onDisk : Index) (config : SearchConfig) :
    Result (Option Index) :=
  if onDisk.schema ≠ buildSchema config then .ok none
  else do
    let tokenizers ← registerTokenizers check config
    pure (some { onDisk with tokenizers := tokenizers })

/-! ## The texts of a document -/

@[simp] theorem texts_nil (field : IndexField) : texts [] field = [] := rfl

@[simp] theorem texts_append (d d' : Document) (field : IndexField) :
    texts (d ++ d') field = texts d field ++ texts d' field := by
  simp [texts]

@[simp] theorem texts_addTexts (field other : IndexField) (values : List String) :
    texts (addTexts field values) other = if field = other then values else [] := by
  induction values with
  | nil => simp [addTexts]
  | cons value values ih =>
      simp only [addTexts, texts, List.map_cons] at ih ⊢
      by_cases h : field = other <;> simp_all

@[simp] theorem texts_flatMap {α : Type*} (items : List α) (f : α → Document)
    (field : IndexField) :
    texts (items.flatMap f) field = items.flatMap fun item => texts (f item) field := by
  induction items with
  | nil => rfl
  | cons item items ih => simp [ih]

/-! ## Capped texts -/

theorem extent_eq_zero_iff (units : List Char) :
    Boundary.extent Char.utf8Size units = 0 ↔ units = [] := by
  cases units with
  | nil => simp
  | cons c units =>
      have hpos := c.utf8Size_pos
      simp only [Boundary.extent_cons, reduceCtorEq, iff_false]
      omega

/-- The cap keeps the longest front within it, unless that is empty. -/
theorem cappedText_eq (maxBytes : ℕ) (text : String) :
    cappedText maxBytes text =
      if Boundary.cut Char.utf8Size maxBytes text.toList = [] then none
      else some (String.ofList (Boundary.cut Char.utf8Size maxBytes text.toList)) := by
  have hslice := Boundary.sliceTo_floorBoundary Char.utf8Size maxBytes text.toList
  obtain ⟨-, hextent⟩ := Boundary.sliceTo_prefix hslice
  have hle := Boundary.floorBoundary_le Char.utf8Size text.toList
    (min (Boundary.extent Char.utf8Size text.toList) maxBytes)
  have hzero := extent_eq_zero_iff (Boundary.cut Char.utf8Size maxBytes text.toList)
  rw [hextent] at hzero
  simp only [cappedText, floorCharBoundary, byteLength, sliceTo, hzero, hslice, Option.map_some]
  by_cases hmax : maxBytes = 0
  · have hempty : Boundary.cut Char.utf8Size maxBytes text.toList = [] := hzero.mp (by omega)
    simp [hmax, ← hempty]
  · simp [hmax]

/-- The bytes kept of several texts. -/
theorem keptBytes_eq (maxBytes : ℕ) (sqls : List String) :
    ((sqls.filterMap (cappedText maxBytes)).map byteLength).sum =
      (sqls.map fun sql =>
        Boundary.extent Char.utf8Size (Boundary.cut Char.utf8Size maxBytes sql.toList)).sum := by
  induction sqls with
  | nil => rfl
  | cons sql sqls ih =>
      rw [List.filterMap_cons, cappedText_eq, List.map_cons, List.sum_cons, ← ih]
      by_cases hcut : Boundary.cut Char.utf8Size maxBytes sql.toList = []
      · simp [hcut]
      · simp [hcut, byteLength]

theorem eq_of_sum_eq {α : Type*} {f g : α → ℕ} {items : List α}
    (hle : ∀ item ∈ items, f item ≤ g item) (hsum : (items.map f).sum = (items.map g).sum) :
    ∀ item ∈ items, f item = g item := by
  induction items with
  | nil => simp
  | cons item items ih =>
      have hrest : (items.map f).sum ≤ (items.map g).sum :=
        List.sum_le_sum fun other hother => hle other (List.mem_cons_of_mem _ hother)
      have hitem := hle item List.mem_cons_self
      simp only [List.map_cons, List.sum_cons] at hsum
      intro other hother
      rcases List.mem_cons.mp hother with rfl | hother
      · omega
      · exact ih (fun other hother => hle other (List.mem_cons_of_mem _ hother)) (by omega)
          other hother

/-- A larger cap keeps more of some text or the same of each. -/
theorem cappedTexts_of_le {m n : ℕ} (hmn : m ≤ n) {sqls : List String}
    (h : sqls.filterMap (cappedText m) = sqls.filterMap (cappedText n)) :
    ∀ sql ∈ sqls, Boundary.cut Char.utf8Size m sql.toList =
      Boundary.cut Char.utf8Size n sql.toList := by
  have hsum := congrArg (fun kept : List String => (kept.map byteLength).sum) h
  simp only [keptBytes_eq] at hsum
  have hall := eq_of_sum_eq (fun sql _ => Boundary.extent_mono
    (Boundary.cut_mono Char.utf8Size_pos hmn sql.toList)) hsum
  intro sql hsql
  exact Boundary.eq_of_prefix_of_extent Char.utf8Size_pos
    (Boundary.cut_mono Char.utf8Size_pos hmn sql.toList) (hall sql hsql)

theorem cappedTexts_eq_iff (m n : ℕ) (sqls : List String) :
    sqls.filterMap (cappedText m) = sqls.filterMap (cappedText n) ↔
      ∀ sql ∈ sqls, ∀ b, isCharBoundary sql b = true → (b ≤ m ↔ b ≤ n) := by
  constructor
  · intro h sql hsql
    apply (Boundary.cut_eq_iff Char.utf8Size_pos m n sql.toList).mp
    rcases Nat.le_total m n with hmn | hnm
    · exact cappedTexts_of_le hmn h sql hsql
    · exact (cappedTexts_of_le hnm h.symm sql hsql).symm
  · intro h
    apply List.filterMap_congr
    intro sql hsql
    rw [cappedText_eq, cappedText_eq,
      (Boundary.cut_eq_iff Char.utf8Size_pos m n sql.toList).mpr (h sql hsql)]

/-! ## Extended metadata fields -/

theorem filter_eq_of_perm {α β : Type*} [DecidableEq β] (key : α → β) {items items' : List α}
    (hperm : items.Perm items') (hnodup : (items.map key).Nodup) (k : β) :
    (items.filter fun item => key item = k) = items'.filter fun item => key item = k := by
  have hfilter := hperm.filter fun item => key item = k
  have hshort : (items.filter fun item => key item = k).length ≤ 1 := by
    have hsame : (items.filter fun item => key item = k).map key =
        List.replicate (items.filter fun item => key item = k).length k := by
      rw [List.eq_replicate_iff, List.length_map]
      refine ⟨rfl, fun other hother => ?_⟩
      obtain ⟨item, hitem, rfl⟩ := List.mem_map.mp hother
      simpa using (List.mem_filter.mp hitem).2
    have hsub : ((items.filter fun item => key item = k).map key).Nodup :=
      hnodup.sublist (List.filter_sublist.map key)
    rw [hsame] at hsub
    exact List.nodup_replicate.mp hsub
  match hitems : items.filter fun item => key item = k, hshort with
  | [], _ =>
      rw [hitems] at hfilter
      exact hfilter.nil_eq
  | [item], _ =>
      rw [hitems] at hfilter
      exact (List.singleton_perm.mp hfilter)

theorem texts_addExtendedMetaFields (entityJson : JsonValue) (e : ExtendedMetaSearchConfig)
    (metaAlias : String) :
    texts (addExtendedMetaFields entityJson e) (.extended metaAlias) =
      (((sortedExtendedMetaFields e).map Fingerprint.canonicalField).filter fun field =>
        field.fieldAlias = metaAlias).flatMap fun field =>
          extendedTexts entityJson e (pathOfSegments (splitAt '.' field.path)) field.mode := by
  rw [addExtendedMetaFields, texts_flatMap]
  generalize sortedExtendedMetaFields e = fields
  induction fields with
  | nil => simp only [List.map_nil, List.filter_nil, List.flatMap_nil]
  | cons field fields ih =>
      rw [List.flatMap_cons, ih, texts_addTexts, List.map_cons]
      have hcanonical : (Fingerprint.canonicalField field).fieldAlias = trim field.fieldAlias := rfl
      rw [List.filter_cons, hcanonical]
      by_cases h : trim field.fieldAlias = metaAlias
      · simp only [h, decide_true, if_true, List.flatMap_cons]
        rfl
      · simp only [h, IndexField.extended.injEq, decide_false, if_false, List.nil_append,
          Bool.false_eq_true]

theorem texts_addExtendedMetaFields_other (entityJson : JsonValue) (e : ExtendedMetaSearchConfig)
    {field : IndexField} (hfield : ∀ metaAlias, field ≠ .extended metaAlias) :
    texts (addExtendedMetaFields entityJson e) field = [] := by
  rw [addExtendedMetaFields, texts_flatMap, List.flatMap_eq_nil_iff]
  intro other _
  rw [texts_addTexts, if_neg (hfield _).symm]

/-- Allowlists with equal fingerprints, in whatever order, give the same texts. -/
theorem addExtendedMetaFields_same (entityJson : JsonValue) {e e' : ExtendedMetaSearchConfig}
    (hvalid : validate e = .ok ()) (hsame : Fingerprint.SameExtendedMeta e e') :
    SameDocument (addExtendedMetaFields entityJson e) (addExtendedMetaFields entityJson e') := by
  intro field
  by_cases hfield : ∃ metaAlias, field = .extended metaAlias
  · obtain ⟨metaAlias, rfl⟩ := hfield
    have hsorted (e : ExtendedMetaSearchConfig) :
        ((sortedExtendedMetaFields e).map Fingerprint.canonicalField).Perm
          (Fingerprint.canonicalFields e) := (List.perm_insertionSort _ _).map _
    have hperm : ((sortedExtendedMetaFields e).map Fingerprint.canonicalField).Perm
        ((sortedExtendedMetaFields e').map Fingerprint.canonicalField) :=
      (hsorted e).trans (hsame.fields.trans (hsorted e').symm)
    have hnodup : (((sortedExtendedMetaFields e).map Fingerprint.canonicalField).map
        (·.fieldAlias)).Nodup := by
      have haliases := validate_nodup hvalid
      rw [((hsorted e).map _).nodup_iff]
      simpa [Fingerprint.canonicalFields, Function.comp_def, Fingerprint.canonicalField]
        using haliases
    rw [texts_addExtendedMetaFields, texts_addExtendedMetaFields,
      filter_eq_of_perm (·.fieldAlias) hperm hnodup metaAlias]
    simp only [extendedTexts, hsame.maxValuesPerField, hsame.maxBytesPerValue]
  · have hother : ∀ metaAlias, field ≠ .extended metaAlias := fun metaAlias h => hfield ⟨_, h⟩
    rw [texts_addExtendedMetaFields_other _ _ hother,
      texts_addExtendedMetaFields_other _ _ hother]

/-! ## Two configurations -/

/-- The texts that have an n-gram field. -/
def ngramTexts (input : IndexInput) (stored : String × Entity) : List String :=
  stored.2.entityAlias.toList ++ stored.2.name.toList ++ (columnsText stored.2.payload).toList ++
    (tagsText input stored.1).toList

theorem addSearchable_same {c c' : SearchConfig} (plain code ngram : IndexField)
    {text : Option String} (h : c.enableNgram = c'.enableNgram ∨ text = none) :
    SameDocument (addSearchable c plain code ngram text)
      (addSearchable c' plain code ngram text) := by
  intro field
  rcases h with h | h
  · rw [addSearchable, addSearchable, h]
  · simp [addSearchable, h]

/-- The fields that depend on the settings of the build. -/
theorem document_texts (input : IndexInput) (c : SearchConfig) (stored : String × Entity) :
    texts (document input c stored) .rawCode =
        (sqlTexts stored.2.payload).filterMap (cappedText c.maxSqlChunkBytes) ∧
      texts (document input c stored) .aliasNgram =
        (if c.enableNgram then stored.2.entityAlias.toList else []) ∧
      texts (document input c stored) .nameNgram =
        (if c.enableNgram then stored.2.name.toList else []) ∧
      texts (document input c stored) .columnsNgram =
        (if c.enableNgram then (columnsText stored.2.payload).toList else []) ∧
      texts (document input c stored) .tagsNgram =
        (if c.enableNgram then (tagsText input stored.1).toList else []) := by
  have hextended (field : IndexField) (h : ∀ metaAlias, field ≠ .extended metaAlias) :
      texts (addExtendedMetaFields stored.2.payload c.extendedMeta) field = [] :=
    texts_addExtendedMetaFields_other _ _ h
  simp [document, addSearchable, addNovaMeta, hextended]

theorem document_same_iff (input : IndexInput) {c c' : SearchConfig} (stored : String × Entity)
    (hvalid : validate c.extendedMeta = .ok ())
    (hsame : Fingerprint.SameExtendedMeta c.extendedMeta c'.extendedMeta) :
    SameDocument (document input c stored) (document input c' stored) ↔
      (c.enableNgram = c'.enableNgram ∨ ngramTexts input stored = []) ∧
        ∀ sql ∈ sqlTexts stored.2.payload, ∀ b, isCharBoundary sql b = true →
          (b ≤ c.maxSqlChunkBytes ↔ b ≤ c'.maxSqlChunkBytes) := by
  rw [← cappedTexts_eq_iff]
  constructor
  · intro h
    obtain ⟨hsql, halias, hname, hcolumns, htags⟩ := document_texts input c stored
    obtain ⟨hsql', halias', hname', hcolumns', htags'⟩ := document_texts input c' stored
    rw [h] at hsql halias hname hcolumns htags
    refine ⟨?_, hsql.symm.trans hsql'⟩
    rw [halias] at halias'
    rw [hname] at hname'
    rw [hcolumns] at hcolumns'
    rw [htags] at htags'
    cases hc : c.enableNgram <;> cases hc' : c'.enableNgram <;> simp_all [ngramTexts]
  · intro h
    obtain ⟨hngram, hsql⟩ := h
    obtain ⟨uniqueId, entity⟩ := stored
    have hnone : ngramTexts input (uniqueId, entity) = [] →
        entity.entityAlias = none ∧ entity.name = none ∧ columnsText entity.payload = none ∧
          tagsText input uniqueId = none := by
      simp [ngramTexts]
    have halias := addSearchable_same .entityAlias .aliasCode .aliasNgram
      (hngram.imp_right fun h => (hnone h).1)
    have hname := addSearchable_same .name .nameCode .nameNgram
      (hngram.imp_right fun h => (hnone h).2.1)
    have hcolumns := addSearchable_same .columns .columnsCode .columnsNgram
      (hngram.imp_right fun h => (hnone h).2.2.1)
    have htags := addSearchable_same .tags .tagsCode .tagsNgram
      (hngram.imp_right fun h => (hnone h).2.2.2)
    have hextended := addExtendedMetaFields_same entity.payload hvalid hsame
    intro field
    simp only [document, texts_append, halias field, hname field, hcolumns field, htags field,
      hextended field, hsql]

/-- The same tokenizers, and documents that hold the same texts. -/
structure SameContent (i i' : Index) : Prop where
  tokenizers : i.tokenizers = i'.tokenizers
  documents : List.Forall₂ SameDocument i.documents i'.documents

/-- The search library takes the n-gram sizes. -/
def NgramAccepted (check : NgramCheck) (config : SearchConfig) : Prop :=
  check (ngramSizes config).1 (ngramSizes config).2 = none

/-- Every setting the build reads outside the extended metadata makes no difference. -/
structure IndexSettingsAgree (input : IndexInput) (c c' : SearchConfig) : Prop where
  sizes : ngramSizes c = ngramSizes c'
  ngram : c.enableNgram = c'.enableNgram ∨ ∀ stored ∈ input.entities, ngramTexts input stored = []
  sql : ∀ stored ∈ input.entities, ∀ sql ∈ sqlTexts stored.2.payload,
    ∀ b, isCharBoundary sql b = true → (b ≤ c.maxSqlChunkBytes ↔ b ≤ c'.maxSqlChunkBytes)

theorem tokenizerTable_injective : Function.Injective tokenizerTable := by
  intro sizes sizes' h
  simpa [tokenizerTable, Prod.ext_iff] using h

theorem registerTokenizers_ok_iff {check : NgramCheck} {config : SearchConfig}
    {tokenizers : List (String × TextAnalyzer)} :
    registerTokenizers check config = .ok tokenizers ↔
      NgramAccepted check config ∧ tokenizers = tokenizerTable (ngramSizes config) := by
  rw [registerTokenizers, NgramAccepted]
  cases check (ngramSizes config).1 (ngramSizes config).2 <;> simp [eq_comm]

theorem build_ok_iff {check : NgramCheck} {input : IndexInput} {config : SearchConfig}
    {index : Index} :
    build check input config = .ok index ↔
      NgramAccepted check config ∧
        index = ⟨buildSchema config, tokenizerTable (ngramSizes config),
          input.entities.map (document input config)⟩ := by
  rw [build, bind_eq_ok]
  constructor
  · intro h
    obtain ⟨tokenizers, htokenizers, hindex⟩ := h
    obtain ⟨haccepted, rfl⟩ := registerTokenizers_ok_iff.mp htokenizers
    exact ⟨haccepted, (Except.ok.inj hindex).symm⟩
  · intro h
    obtain ⟨haccepted, rfl⟩ := h
    exact ⟨_, registerTokenizers_ok_iff.mpr ⟨haccepted, rfl⟩, rfl⟩

theorem documents_same_iff (input : IndexInput) {c c' : SearchConfig}
    (hvalid : validate c.extendedMeta = .ok ())
    (hsame : Fingerprint.SameExtendedMeta c.extendedMeta c'.extendedMeta) :
    List.Forall₂ SameDocument (input.entities.map (document input c))
        (input.entities.map (document input c')) ↔
      (c.enableNgram = c'.enableNgram ∨
          ∀ stored ∈ input.entities, ngramTexts input stored = []) ∧
        ∀ stored ∈ input.entities, ∀ sql ∈ sqlTexts stored.2.payload,
          ∀ b, isCharBoundary sql b = true →
            (b ≤ c.maxSqlChunkBytes ↔ b ≤ c'.maxSqlChunkBytes) := by
  rw [List.forall₂_map_left_iff, List.forall₂_map_right_iff, List.forall₂_same]
  simp only [document_same_iff input _ hvalid hsame, forall_and]
  by_cases hngram : c.enableNgram = c'.enableNgram <;> simp [hngram]

/-- What two builds write is the same exactly when the settings agree. -/
theorem build_same_iff (check : NgramCheck) (input : IndexInput) {c c' : SearchConfig}
    (hvalid : validate c.extendedMeta = .ok ())
    (hsame : Fingerprint.SameExtendedMeta c.extendedMeta c'.extendedMeta) :
    (∀ i i', build check input c = .ok i → build check input c' = .ok i' → SameContent i i') ↔
      (NgramAccepted check c → NgramAccepted check c' → IndexSettingsAgree input c c') := by
  have hdocuments := documents_same_iff input hvalid hsame
  constructor
  · intro h haccepted haccepted'
    have hcontent := h _ _ (build_ok_iff.mpr ⟨haccepted, rfl⟩)
      (build_ok_iff.mpr ⟨haccepted', rfl⟩)
    obtain ⟨hngram, hsql⟩ := hdocuments.mp hcontent.documents
    exact ⟨tokenizerTable_injective hcontent.tokenizers, hngram, hsql⟩
  · intro h i i' hbuild hbuild'
    obtain ⟨haccepted, rfl⟩ := build_ok_iff.mp hbuild
    obtain ⟨haccepted', rfl⟩ := build_ok_iff.mp hbuild'
    have hagree := h haccepted haccepted'
    exact ⟨congrArg tokenizerTable hagree.sizes, hdocuments.mpr ⟨hagree.ngram, hagree.sql⟩⟩

/-- An index that is opened serves what a build would have written, as long as the
two builds write the same. -/
theorem openIndex_same {check : NgramCheck} {input : IndexInput} {c c' : SearchConfig}
    {built fresh served : Index} (hbuilt : build check input c = .ok built)
    (hfresh : build check input c' = .ok fresh)
    (hsame : SameContent built fresh) (hopen : openIndex check built c' = .ok (some served)) :
    served.schema = fresh.schema ∧ SameContent served fresh := by
  obtain ⟨-, rfl⟩ := build_ok_iff.mp hbuilt
  obtain ⟨-, rfl⟩ := build_ok_iff.mp hfresh
  rw [openIndex] at hopen
  split at hopen
  · cases hopen
  · rename_i hschema
    obtain ⟨tokenizers, htokenizers, hserved⟩ := bind_eq_ok.mp hopen
    obtain ⟨-, rfl⟩ := registerTokenizers_ok_iff.mp htokenizers
    cases hserved
    exact ⟨not_not.mp hschema, rfl, hsame.documents⟩

end DbtNova.SearchIndex
