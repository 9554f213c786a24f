import DbtNova.EmbeddingText
import DbtNova.ManifestParse
import DbtNova.MetaAccessors

/-!
# The three sources of an embedding text

The text of an entity is built from its payload, from the entity made of it, or from the
archived entity. Each source lists the tokens by hand. A token that was seen before, up to
case, is left out, so an order that differs between two sources may or may not show.
-/
namespace DbtNova.EmbeddingSources
open JsonValue EntityMeta EmbeddingText Text

/-! ## The metadata of an entity -/

def textField (map : List (String × JsonValue)) (key : String) : Option String :=
  (map.lookup key).bind asStr

def extractStringArray (value : JsonValue) : List String := (value.asArray.getD []).filterMap asStr

def extractStringArrayFromMap (map : List (String × JsonValue)) (key : String) : List String :=
  ((map.lookup key).map extractStringArray).getD []

def parseGrain (value : JsonValue) : Option NovaGrain :=
  value.asObject.map fun map =>
    { primaryKey := extractStringArrayFromMap map "primary_key"
      timeField := textField map "time_field"
      dimensions := extractStringArrayFromMap map "dimensions" }

/-- A measure without a name is left out. -/
def parseMeasure (value : JsonValue) : Option NovaMeasure :=
  value.asObject.bind fun measure =>
    (textField measure "name").map fun name =>
      { name := name
        expression := textField measure "expression"
        description := textField measure "description"
        field := textField measure "field"
        synonyms := extractStringArrayFromMap measure "synonyms" }

def parseMetric (value : JsonValue) : Option NovaMetric :=
  value.asObject.bind fun metric =>
    (textField metric "name").map fun name =>
      { name := name
        description := textField metric "description"
        expression := textField metric "expression"
        synonyms := extractStringArrayFromMap metric "synonyms" }

def parsePii (value : Option JsonValue) : Option String :=
  match value with
  | some (.bool flag) => some (if flag then "true" else "false")
  | some (.string text) => some text
  | some (.array values) =>
      let joined := String.intercalate "," (values.filterMap asStr)
      if joined = "" then none else some joined
  | _ => none

def parseGovernance (value : JsonValue) : Option NovaGovernance :=
  value.asObject.map fun governance =>
    { sensitivity := textField governance "sensitivity"
      pii := parsePii (governance.lookup "pii")
      compliance := extractStringArrayFromMap governance "compliance" }

def parseNovaMetaObject (nova : List (String × JsonValue)) : NovaMeta where
  synonyms := extractStringArrayFromMap nova "synonyms"
  domains := extractStringArrayFromMap nova "domains"
  useCases := extractStringArrayFromMap nova "use_cases"
  exampleValues := extractStringArrayFromMap nova "example_values"
  canonical := ((nova.lookup "canonical").bind asBool).getD false
  tier := textField nova "tier"
  grain := (nova.lookup "grain").bind parseGrain
  measures := (((nova.lookup "measures").bind asArray).getD []).filterMap parseMeasure
  metric := (nova.lookup "metric").bind parseMetric
  metrics := (((nova.lookup "metrics").bind asArray).getD []).filterMap parseMetric
  governance := (nova.lookup "governance").bind parseGovernance

/-! ### Metrics and semantic models of MetricFlow -/

/-- The first of the fields that holds a text, unless that text is blank. -/
def firstStringField (value : JsonValue) (fields : List String) : Option String :=
  ((fields.findSome? value.getStr).map trim).filter (· ≠ "")

def metricflowSynonyms (value : JsonValue) (canonicalName : String) : List String :=
  let synonyms := ((value.get "synonyms").map extractStringArray).getD []
  match value.getStr "label" with
  | some label =>
      if label ≠ canonicalName ∧ label ∉ synonyms then synonyms ++ [label] else synonyms
  | none => synonyms

def metricflowNamedReference (value : JsonValue) : Option String :=
  value.asStr.or (firstStringField value ["name", "expr"])

def metricflowNameOrExpr (value : JsonValue) : Option String :=
  firstStringField value ["expr", "name"]

def metricflowMetricExpression (value : JsonValue) : Option String :=
  match firstStringField value ["expr", "expression", "sql"] with
  | some expression => some expression
  | none =>
      (value.get "type_params").bind fun typeParams =>
        match typeParams.get "measure" with
        | some measure =>
            if (value.getStr "type").getD "" = "simple" then metricflowNamedReference measure
            else some typeParams.toText
        | none => some typeParams.toText

def metricflowMeasureFromValue (value : JsonValue) : Option NovaMeasure :=
  (value.getStr "name").map fun name =>
    { name := name
      expression := (firstStringField value ["expr", "expression"]).or (some name)
      description := firstStringField value ["description", "label"]
      field := firstStringField value ["expr", "name"]
      synonyms := metricflowSynonyms value name }

def metricflowSemanticModelGrain (value : JsonValue) : Option NovaGrain :=
  let isOfType (type : String) (item : JsonValue) : Bool := item.getStr "type" == some type
  let primaryKey :=
    ((value.getArray "entities").filter (isOfType "primary")).filterMap metricflowNameOrExpr
  let dimensions := (value.getArray "dimensions").filterMap metricflowNameOrExpr
  let timeField :=
    (((value.getArray "dimensions").filter (isOfType "time")).filterMap metricflowNameOrExpr).head?
  if primaryKey.isEmpty && timeField.isNone && dimensions.isEmpty then none
  else some ⟨primaryKey, timeField, dimensions⟩

def deriveMetricflowMetricNovaMeta (value : JsonValue) : Option NovaMeta :=
  (value.getStr "name").map fun name =>
    let synonyms := metricflowSynonyms value name
    { canonical := true
      synonyms := synonyms
      metric := some
        { name := name
          description := firstStringField value ["description", "label"]
          expression := metricflowMetricExpression value
          synonyms := synonyms } }

def deriveMetricflowSemanticModelNovaMeta (value : JsonValue) : Option NovaMeta :=
  let measures := (value.getArray "measures").filterMap metricflowMeasureFromValue
  let grain := metricflowSemanticModelGrain value
  if measures.isEmpty && grain.isNone then none
  else some { canonical := true, measures := measures, grain := grain }

def deriveMetricflowNovaMeta (value : JsonValue) : Option NovaMeta :=
  match value.getStr "resource_type" with
  | some "metric" => deriveMetricflowMetricNovaMeta value
  | some "semantic_model" => deriveMetricflowSemanticModelNovaMeta value
  | _ => none

def mergeUniqueStrings (base overlay : List String) : List String :=
  overlay.foldl (fun base value => if value ∈ base then base else base ++ [value]) base

/-- `merge_measures` and `merge_metrics`: an item takes the place of the one with its name. -/
def mergeNamed {α : Type*} (name : α → String) (base overlay : List α) : List α :=
  overlay.foldl
    (fun base item =>
      match base.findIdx? fun candidate => name candidate == name item with
      | some i => base.set i item
      | none => base ++ [item]) base

def mergeNovaMeta (derived explicit : Option NovaMeta) : Option NovaMeta :=
  match derived, explicit with
  | some base, some overlay =>
      some
        { synonyms := mergeUniqueStrings base.synonyms overlay.synonyms
          domains := mergeUniqueStrings base.domains overlay.domains
          useCases := mergeUniqueStrings base.useCases overlay.useCases
          exampleValues := mergeUniqueStrings base.exampleValues overlay.exampleValues
          canonical := base.canonical || overlay.canonical
          tier := overlay.tier.or base.tier
          grain := overlay.grain.or base.grain
          measures := mergeNamed NovaMeasure.name base.measures overlay.measures
          metric := overlay.metric.or base.metric
          metrics := mergeNamed NovaMetric.name base.metrics overlay.metrics
          governance := overlay.governance.or base.governance }
  | derived, explicit => derived.or explicit

def getNovaMeta (value : JsonValue) : Option NovaMeta :=
  mergeNovaMeta (deriveMetricflowNovaMeta value)
    (((entityNovaMetaJson value).bind asObject).map parseNovaMetaObject)

def getColumnNames (value : JsonValue) : List String :=
  ((((value.get "columns").bind asObject).getD []).map Prod.fst).insertionSort (· ≤ ·)

/-- `Entity::from_json` -/
def fromJson (payload : JsonValue) : DbtNova.Entity where
  resourceType := payload.getStr "resource_type"
  name := payload.getStr "name"
  entityAlias := payload.getStr "alias"
  packageName := payload.getStr "package_name"
  description := payload.getStr "description"
  tags := ManifestParse.getTags payload
  columnNames := getColumnNames payload
  novaMeta := getNovaMeta payload
  payload := payload

/-! ## The tokens of an entity -/

/-- The tokens behind the synonyms and domains, for an entity and for an archived one. -/
def laterTokens (nova : NovaMeta) : List String :=
  nova.useCases ++ nova.exampleValues ++ nova.measures.flatMap measureTokens ++
    (nova.metric.toList ++ nova.metrics).flatMap metricTokens ++
    (if nova.canonical then ["canonical"] else []) ++ nova.tier.toList ++
    nova.grain.toList.flatMap grainTokens ++ nova.governance.toList.flatMap governanceTokens

/-- An entity visits the synonyms before the domains. -/
def entityNovaTokens (nova : NovaMeta) : List String :=
  nova.synonyms ++ nova.domains ++ laterTokens nova

/-- The tokens before the metadata, for an entity and for an archived one. -/
def earlierTokens (entity : DbtNova.Entity) : List String :=
  entity.name.toList ++ entity.entityAlias.toList ++ entity.resourceType.toList ++
    entity.description.toList ++ entity.tags ++ entity.columnNames

def entityTokens (entity : DbtNova.Entity) : List String :=
  earlierTokens entity ++ entity.novaMeta.toList.flatMap entityNovaTokens

/-! ## The tokens of a payload -/

def visitStringArray (value : JsonValue) (key : String) : List String :=
  (value.getArray key).filterMap asStr

def visitMeasureJson (measure : JsonValue) : List String :=
  (measure.getStr "name").toList ++ (measure.getStr "description").toList ++
    (measure.getStr "field").toList ++ (measure.getStr "expression").toList ++
    visitStringArray measure "synonyms"

def visitMetricJson (metric : JsonValue) : List String :=
  (metric.getStr "name").toList ++ (metric.getStr "description").toList ++
    (metric.getStr "expression").toList ++ visitStringArray metric "synonyms"

def visitGrainJson (grain : JsonValue) : List String :=
  visitStringArray grain "primary_key" ++ (grain.getStr "time_field").toList ++
    visitStringArray grain "dimensions"

def visitPiiJson (pii : Option JsonValue) : List String :=
  match pii with
  | some (.bool true) => ["pii"]
  | some (.string text) => ["pii", text]
  | some (.array values) => "pii" :: values.filterMap asStr
  | _ => []

def visitGovernanceJson (governance : JsonValue) : List String :=
  (governance.getStr "sensitivity").toList ++ visitPiiJson (governance.get "pii") ++
    visitStringArray governance "compliance"

def visitNovaMetaJson (nova : JsonValue) : List String :=
  visitStringArray nova "synonyms" ++ visitStringArray nova "domains" ++
    visitStringArray nova "use_cases" ++ visitStringArray nova "example_values" ++
    (nova.getArray "measures").flatMap visitMeasureJson ++
    ((nova.get "metric").toList ++ nova.getArray "metrics").flatMap visitMetricJson ++
    (if (nova.get "canonical").bind asBool = some true then ["canonical"] else []) ++
    (nova.getStr "tier").toList ++ (nova.get "grain").toList.flatMap visitGrainJson ++
    (nova.get "governance").toList.flatMap visitGovernanceJson

def visitColumnsJson (value : JsonValue) : List String :=
  (((value.get "columns").bind asObject).getD []).map Prod.fst

def jsonTokens (value : JsonValue) : List String :=
  (value.getStr "name").toList ++ (value.getStr "alias").toList ++
    (value.getStr "resource_type").toList ++ (value.getStr "description").toList ++
    visitStringArray value "tags" ++ visitColumnsJson value ++
    (entityNovaMetaJson value).toList.flatMap visitNovaMetaJson

/-! ## The three texts -/

section Texts
variable (toLowercase : String → String)

def embeddingTextFrom (tokens : List String) (config : DbtNova.SearchConfig) : String :=
  let text := (tokens.foldl (addToken toLowercase) {}).text
  if 0 < config.vectorMaxChars then truncateToCharBoundary text config.vectorMaxChars else text

def embeddingTextFromJson (value : JsonValue) (config : DbtNova.SearchConfig) : String :=
  embeddingTextFrom toLowercase (jsonTokens value) config

def embeddingTextFromEntity (entity : DbtNova.Entity) (config : DbtNova.SearchConfig) : String :=
  embeddingTextFrom toLowercase (entityTokens entity) config

theorem embeddingTextFromArchived_eq_tokens (entity : DbtNova.Entity)
    (config : DbtNova.SearchConfig) :
    embeddingTextFromArchived toLowercase entity config =
      embeddingTextFrom toLowercase (embeddingTokens entity) config := rfl

/-- The three sources of an entity give one text. -/
def TextsAgree (value : JsonValue) (config : DbtNova.SearchConfig) : Prop :=
  embeddingTextFromJson toLowercase value config =
      embeddingTextFromEntity toLowercase (fromJson value) config ∧
    embeddingTextFromEntity toLowercase (fromJson value) config =
      embeddingTextFromArchived toLowercase (fromJson value) config

end Texts

/-! ## Texts that are put together -/

section Join
variable {a b c d : String}

/-- Two texts with a blank between them, where both are there. -/
def join (a b : String) : String := if a = "" then b else if b = "" then a else a ++ " " ++ b

theorem join_empty : join a "" = a := by
  unfold join
  split
  · rename_i hempty
    exact hempty.symm
  · rfl

theorem join_eq_empty : join a b = "" ↔ a = "" ∧ b = "" := by
  unfold join
  split
  · rename_i ha
    exact ⟨fun hb => ⟨ha, hb⟩, And.right⟩
  · rename_i ha
    split
    · exact iff_of_false ha fun h => ha h.1
    · refine iff_of_false (fun h => ?_) fun h => ha h.1
      rw [String.append_eq_empty_iff, String.append_eq_empty_iff] at h
      exact ha h.1.1

theorem join_assoc : join (join a b) c = join a (join b c) := by
  by_cases ha : a = ""
  · unfold join
    rw [if_pos ha, if_pos ha]
  · by_cases hb : b = ""
    · have habove : join a b = a := by
        rw [hb]
        exact join_empty
      have hbelow : join b c = c := if_pos hb
      rw [habove, hbelow]
    · by_cases hc : c = ""
      · rw [hc, join_empty, join_empty]
      · have hab : join a b = a ++ " " ++ b := by
          unfold join
          rw [if_neg ha, if_neg hb]
        have hbc : join b c = b ++ " " ++ c := by
          unfold join
          rw [if_neg hb, if_neg hc]
        have habne : join a b ≠ "" := fun h => ha (join_eq_empty.mp h).1
        have hbcne : join b c ≠ "" := fun h => hb (join_eq_empty.mp h).1
        have houter : join (join a b) c = join a b ++ " " ++ c := by
          rw [join, if_neg habne, if_neg hc]
        have hinner : join a (join b c) = a ++ " " ++ join b c := by
          rw [join, if_neg ha, if_neg hbcne]
        rw [houter, hinner, hab, hbc]
        simp only [String.append_assoc]

/-- A text between two others can be read off. -/
theorem join_middle_inj (hempty : b = "" ↔ c = "") :
    join (join a b) d = join (join a c) d ↔ b = c := by
  refine ⟨fun h => ?_, fun h => by rw [h]⟩
  by_cases hb : b = ""
  · rw [hb, hempty.mp hb]
  · have hc : c ≠ "" := fun hc => hb (hempty.mpr hc)
    rw [join_assoc, join_assoc] at h
    have hbd : join b d ≠ "" := fun h => hb (join_eq_empty.mp h).1
    have hcd : join c d ≠ "" := fun h => hc (join_eq_empty.mp h).1
    have hright : join b d = join c d := by
      by_cases ha : a = ""
      · unfold join at h
        rwa [if_pos ha, if_pos ha] at h
      · rw [join, if_neg ha, if_neg hbd, join.eq_def a, if_neg ha, if_neg hcd] at h
        exact (String.append_right_inj _).mp h
    by_cases hd : d = ""
    · rwa [hd, join_empty, join_empty] at hright
    · rw [join, if_neg hb, if_neg hd, join, if_neg hc, if_neg hd, String.append_assoc,
        String.append_assoc] at hright
      exact (String.append_left_inj _).mp hright

end Join

/-! ## The words that tokens add -/

section Words
variable {toLowercase : String → String} {seen seen' tokens : List String} {token key : String}

/-- The text of the tokens that are new behind the keys seen before. -/
def newWords (toLowercase : String → String) (seen tokens : List String) : String :=
  (tokens.foldl (addToken toLowercase) ⟨seen, ""⟩).text

/-- The keys seen behind the tokens. -/
def seenBehind (toLowercase : String → String) (seen tokens : List String) : List String :=
  (tokens.foldl (addToken toLowercase) ⟨seen, ""⟩).seen

theorem addToken_new (hblank : trim token ≠ "") (hnew : toLowercase (trim token) ∉ seen)
    (text : String) :
    addToken toLowercase ⟨seen, text⟩ token =
      ⟨toLowercase (trim token) :: seen, join text (trim token)⟩ := by
  unfold addToken join
  dsimp only
  rw [if_neg hblank, if_neg hnew, if_neg hblank]
  split
  · rw [String.empty_append]
  · rfl

theorem addToken_old (hold : trim token = "" ∨ toLowercase (trim token) ∈ seen) (text : String) :
    addToken toLowercase ⟨seen, text⟩ token = ⟨seen, text⟩ := by
  unfold addToken
  dsimp only
  cases hold with
  | inl hblank => exact if_pos hblank
  | inr hseen => rw [if_pos hseen, ite_self]

/-- What tokens add does not depend on the text before them. -/
theorem foldl_addToken (text : String) :
    tokens.foldl (addToken toLowercase) ⟨seen, text⟩ =
      ⟨seenBehind toLowercase seen tokens, join text (newWords toLowercase seen tokens)⟩ := by
  unfold seenBehind newWords
  induction tokens generalizing seen text with
  | nil =>
      rw [List.foldl_nil, List.foldl_nil, join_empty]
  | cons token tokens ih =>
      rw [List.foldl_cons, List.foldl_cons]
      by_cases hold : trim token = "" ∨ toLowercase (trim token) ∈ seen
      · rw [addToken_old hold, addToken_old hold, ih]
      · rw [not_or] at hold
        have hfirst : join "" (trim token) = trim token := if_pos rfl
        rw [addToken_new hold.1 hold.2, addToken_new hold.1 hold.2, hfirst, ih,
          ih (trim token), join_assoc]

theorem newWords_append (front back : List String) :
    newWords toLowercase seen (front ++ back) =
      join (newWords toLowercase seen front)
        (newWords toLowercase (seenBehind toLowercase seen front) back) := by
  have hfront : front.foldl (addToken toLowercase) ⟨seen, ""⟩ =
      ⟨seenBehind toLowercase seen front, newWords toLowercase seen front⟩ := rfl
  rw [newWords, List.foldl_append, hfront, foldl_addToken]

theorem newWords_cons (token : String) (tokens : List String) :
    newWords toLowercase seen (token :: tokens) =
      if trim token = "" ∨ toLowercase (trim token) ∈ seen then newWords toLowercase seen tokens
      else
        join (trim token)
          (newWords toLowercase (toLowercase (trim token) :: seen) tokens) := by
  rw [newWords, List.foldl_cons]
  split
  · rename_i hold
    rw [addToken_old hold, newWords]
  · rename_i hnew
    rw [not_or] at hnew
    rw [addToken_new hnew.1 hnew.2, foldl_addToken]
    exact congrArg (join · _) (if_pos rfl)

theorem mem_seen_foldl (text : String) :
    key ∈ (tokens.foldl (addToken toLowercase) ⟨seen, text⟩).seen ↔
      key ∈ seen ∨ ∃ token ∈ tokens, trim token ≠ "" ∧ toLowercase (trim token) = key := by
  induction tokens generalizing seen text with
  | nil => simp
  | cons token tokens ih =>
      rw [List.foldl_cons]
      by_cases hold : trim token = "" ∨ toLowercase (trim token) ∈ seen
      · rw [addToken_old hold, ih]
        constructor
        · rintro (hseen | ⟨other, hother, hkey⟩)
          · exact .inl hseen
          · exact .inr ⟨other, List.mem_cons_of_mem _ hother, hkey⟩
        · rintro (hseen | ⟨other, hother, hblank, rfl⟩)
          · exact .inl hseen
          · cases List.mem_cons.mp hother with
            | inl heq => exact .inl (heq ▸ hold.resolve_left (heq ▸ hblank))
            | inr htail => exact .inr ⟨other, htail, hblank, rfl⟩
      · rw [not_or] at hold
        rw [addToken_new hold.1 hold.2, ih, List.mem_cons]
        constructor
        · rintro ((rfl | hseen) | ⟨other, hother, hkey⟩)
          · exact .inr ⟨token, List.mem_cons_self, hold.1, rfl⟩
          · exact .inl hseen
          · exact .inr ⟨other, List.mem_cons_of_mem _ hother, hkey⟩
        · rintro (hseen | ⟨other, hother, hblank, rfl⟩)
          · exact .inl (.inr hseen)
          · cases List.mem_cons.mp hother with
            | inl heq => exact .inl (.inl (heq ▸ rfl))
            | inr htail => exact .inr ⟨other, htail, hblank, rfl⟩

theorem mem_seenBehind :
    key ∈ seenBehind toLowercase seen tokens ↔
      key ∈ seen ∨ ∃ token ∈ tokens, trim token ≠ "" ∧ toLowercase (trim token) = key :=
  mem_seen_foldl ""

theorem newWords_congr (h : ∀ key, key ∈ seen ↔ key ∈ seen') :
    newWords toLowercase seen tokens = newWords toLowercase seen' tokens := by
  induction tokens generalizing seen seen' with
  | nil => rfl
  | cons token tokens ih =>
      have hnext : ∀ key, key ∈ toLowercase (trim token) :: seen ↔
          key ∈ toLowercase (trim token) :: seen' := by
        intro key
        rw [List.mem_cons, List.mem_cons, h]
      rw [newWords_cons, newWords_cons, ih h, ih hnext]
      simp only [h]

theorem newWords_eq_empty :
    newWords toLowercase seen tokens = "" ↔
      ∀ token ∈ tokens, trim token = "" ∨ toLowercase (trim token) ∈ seen := by
  induction tokens generalizing seen with
  | nil => exact iff_of_true rfl fun _ hmem => absurd hmem List.not_mem_nil
  | cons token tokens ih =>
      rw [newWords_cons, List.forall_mem_cons]
      split
      · rename_i hold
        rw [ih, and_iff_right hold]
      · rename_i hnew
        refine iff_of_false (fun h => hnew (.inl (join_eq_empty.mp h).1)) fun h => hnew h.1

/-- Two orders of some tokens between others show exactly when the words they add differ. -/
theorem newWords_order (toLowercase : String → String) {first second : List String}
    (front back : List String)
    (hsame : ∀ token, token ∈ first ↔ token ∈ second) :
    newWords toLowercase [] (front ++ first ++ back) =
        newWords toLowercase [] (front ++ second ++ back) ↔
      newWords toLowercase (seenBehind toLowercase [] front) first =
        newWords toLowercase (seenBehind toLowercase [] front) second := by
  have hseen : ∀ key, key ∈ seenBehind toLowercase [] (front ++ first) ↔
      key ∈ seenBehind toLowercase [] (front ++ second) := by
    intro key
    simp only [mem_seenBehind, List.mem_append, hsame]
  have hempty : newWords toLowercase (seenBehind toLowercase [] front) first = "" ↔
      newWords toLowercase (seenBehind toLowercase [] front) second = "" := by
    simp only [newWords_eq_empty, hsame]
  rw [newWords_append (front ++ first), newWords_append (front ++ second),
    newWords_append front first, newWords_append front second, newWords_congr hseen,
    join_middle_inj hempty]

end Words

/-! ## The order of synonyms and domains -/

section Order
variable {toLowercase : String → String}

/-- The synonyms and the domains add the same words whichever come first. -/
def OrderFree (toLowercase : String → String) (entity : DbtNova.Entity) : Prop :=
  ∀ nova, entity.novaMeta = some nova →
    let seen := seenBehind toLowercase [] (earlierTokens entity)
    newWords toLowercase seen (nova.synonyms ++ nova.domains) =
      newWords toLowercase seen (nova.domains ++ nova.synonyms)

theorem novaTokens_eq (nova : NovaMeta) :
    novaTokens nova = nova.domains ++ nova.synonyms ++ laterTokens nova := by
  unfold novaTokens laterTokens
  simp only [List.flatMap_append, List.append_assoc]

/-- Two texts that agree for every bound agree without one. -/
theorem embeddingTextFrom_agree_iff {tokens others : List String} :
    (∀ config, embeddingTextFrom toLowercase tokens config =
        embeddingTextFrom toLowercase others config) ↔
      newWords toLowercase [] tokens = newWords toLowercase [] others := by
  constructor
  · intro h
    exact h { vectorMaxChars := 0 }
  · intro h config
    unfold newWords at h
    unfold embeddingTextFrom
    rw [h]

/-- The entity and the archived entity have one text exactly when the order of the synonyms
and the domains does not show. -/
theorem entity_archived_iff (entity : DbtNova.Entity) :
    (∀ config, embeddingTextFromEntity toLowercase entity config =
        embeddingTextFromArchived toLowercase entity config) ↔ OrderFree toLowercase entity := by
  have hagree : (∀ config, embeddingTextFromEntity toLowercase entity config =
        embeddingTextFromArchived toLowercase entity config) ↔
      newWords toLowercase [] (entityTokens entity) =
        newWords toLowercase [] (embeddingTokens entity) := embeddingTextFrom_agree_iff
  rw [hagree]
  unfold OrderFree entityTokens embeddingTokens
  cases hmeta : entity.novaMeta with
  | none => exact iff_of_true rfl fun _ hsome => absurd hsome (by simp)
  | some nova =>
      have hsame : ∀ token, token ∈ nova.synonyms ++ nova.domains ↔
          token ∈ nova.domains ++ nova.synonyms := by
        intro token
        rw [List.mem_append, List.mem_append, or_comm]
      have horder := newWords_order toLowercase (earlierTokens entity) (laterTokens nova) hsame
      rw [List.append_assoc, List.append_assoc (earlierTokens entity)] at horder
      simp only [Option.toList_some, List.flatMap_singleton, novaTokens_eq, Option.some.injEq,
        forall_eq']
      exact horder

end Order

/-! ## Where a payload and its entity are visited alike -/

/-- A measure with a name has its synonyms behind its texts in the one visit and before them in
the other; one without a name is visited in the payload only. -/
def MeasureVisitedAlike (measure : JsonValue) : Prop :=
  let texts := (measure.getStr "description").toList ++ (measure.getStr "field").toList ++
    (measure.getStr "expression").toList
  let synonyms := visitStringArray measure "synonyms"
  if (measure.getStr "name").isSome then texts ++ synonyms = synonyms ++ texts
  else texts = [] ∧ synonyms = []

def MetricVisitedAlike (metric : JsonValue) : Prop :=
  (metric.getStr "name").isSome ∨
    metric.getStr "description" = none ∧ metric.getStr "expression" = none ∧
      visitStringArray metric "synonyms" = []

/-- Neither a flag that is set, nor the text of one that is not, nor any list but of one
text. -/
def PiiVisitedAlike (pii : Option JsonValue) : Prop :=
  match pii with
  | some (.bool flag) => flag = false
  | some (.string text) => text ≠ "false"
  | some (.array values) => ∃ text, values.filterMap asStr = [text] ∧ text ≠ "" ∧ text ≠ "false"
  | _ => True

structure NovaVisitedAlike (nova : JsonValue) : Prop where
  measures : ∀ measure ∈ nova.getArray "measures", MeasureVisitedAlike measure
  metrics : ∀ metric ∈ (nova.get "metric").toList ++ nova.getArray "metrics",
    MetricVisitedAlike metric
  pii : ∀ governance, nova.get "governance" = some governance →
    PiiVisitedAlike (governance.get "pii")

/-- The tags are no bare text, no metadata is derived, and the written metadata is visited
alike. -/
structure VisitedAlike (value : JsonValue) : Prop where
  tags : ∀ tag, value.get "tags" ≠ some (.string tag)
  derived : deriveMetricflowNovaMeta value = none
  nova : ∀ nova, entityNovaMetaJson value = some nova → NovaVisitedAlike nova

section Visits
variable {value : JsonValue} {fields : List (String × JsonValue)} {key : String}

theorem visitStringArray_object :
    visitStringArray (.object fields) key = extractStringArrayFromMap fields key := by
  unfold visitStringArray getArray extractStringArrayFromMap JsonValue.get asObject
  rw [Option.bind_some]
  cases fields.lookup key with
  | none => rfl
  | some child => rfl

theorem getStr_object : (JsonValue.object fields).getStr key = textField fields key := rfl

theorem getStr_eq_none (h : value.asObject = none) (key : String) : value.getStr key = none := by
  unfold getStr
  rw [get_eq_none h, Option.bind_none]

theorem visitStringArray_eq_nil (h : value.asObject = none) (key : String) :
    visitStringArray value key = [] := by
  unfold visitStringArray getArray
  rw [get_eq_none h]
  rfl

/-- The two visits of a measure list the same tokens exactly when it is visited alike. -/
theorem measure_visits_iff (measure : JsonValue) :
    visitMeasureJson measure = (parseMeasure measure).toList.flatMap measureTokens ↔
      MeasureVisitedAlike measure := by
  unfold MeasureVisitedAlike visitMeasureJson parseMeasure
  dsimp only
  cases hobject : measure.asObject with
  | none =>
      simp only [getStr_eq_none hobject, visitStringArray_eq_nil hobject, Option.bind_none,
        Option.toList_none, List.append_nil, List.flatMap_nil, Option.isSome_none,
        Bool.false_eq_true, if_false, and_self]
  | some fields =>
      cases measure with
      | object fields' =>
          cases hobject
          rw [getStr_object, getStr_object, getStr_object, getStr_object, visitStringArray_object]
          simp only [Option.bind_some]
          cases textField fields "name" with
          | none => simp [and_assoc]
          | some name => simp [measureTokens]
      | _ => contradiction

theorem metric_visits_iff (metric : JsonValue) :
    visitMetricJson metric = (parseMetric metric).toList.flatMap metricTokens ↔
      MetricVisitedAlike metric := by
  unfold MetricVisitedAlike visitMetricJson parseMetric
  cases hobject : metric.asObject with
  | none =>
      simp [getStr_eq_none hobject, visitStringArray_eq_nil hobject]
  | some fields =>
      cases metric with
      | object fields' =>
          cases hobject
          rw [getStr_object, getStr_object, getStr_object, visitStringArray_object]
          simp only [Option.bind_some]
          cases textField fields "name" with
          | none => simp
          | some name => simp [metricTokens]
      | _ => contradiction

/-- What an entity says of its kind of personal data. -/
def piiTokens (pii : Option String) : List String :=
  match pii with
  | some pii => if pii = "false" then [] else ["pii", pii]
  | none => []

theorem pii_visits_iff (pii : Option JsonValue) :
    visitPiiJson pii = piiTokens (parsePii pii) ↔ PiiVisitedAlike pii := by
  unfold visitPiiJson parsePii PiiVisitedAlike
  cases pii with
  | none => exact iff_of_true rfl trivial
  | some value =>
      cases value with
      | bool flag =>
          cases flag with
          | false => exact iff_of_true rfl rfl
          | true => exact iff_of_false (by decide) (by decide)
      | string text =>
          unfold piiTokens
          dsimp only
          split
          · rename_i hfalse
            exact iff_of_false (List.cons_ne_nil _ _) fun h => h hfalse
          · rename_i htext
            exact iff_of_true rfl htext
      | array values =>
          dsimp only
          generalize values.filterMap asStr = texts
          constructor
          · intro h
            split at h
            · contradiction
            · rename_i hjoined
              unfold piiTokens at h
              dsimp only at h
              split at h
              · contradiction
              · rename_i hfalse
                exact ⟨_, (List.cons.inj h).2, hjoined, hfalse⟩
          · rintro ⟨text, rfl, hblank, hfalse⟩
            have hjoined : String.intercalate "," [text] = text := rfl
            unfold piiTokens
            rw [hjoined, if_neg hblank]
            exact (if_neg hfalse).symm
      | _ => exact iff_of_true rfl trivial

/-- Items that are visited alike one by one are visited alike together. -/
theorem flatMap_visits {α : Type*} {visit : JsonValue → List String}
    {parse : JsonValue → Option α} {tokens : α → List String} {items : List JsonValue}
    (h : ∀ item ∈ items, visit item = (parse item).toList.flatMap tokens) :
    items.flatMap visit = (items.filterMap parse).flatMap tokens := by
  induction items with
  | nil => rfl
  | cons item items ih =>
      rw [List.flatMap_cons, h item List.mem_cons_self,
        ih fun other hother => h other (List.mem_cons_of_mem _ hother), List.filterMap_cons]
      cases parse item with
      | none => rfl
      | some found => rw [Option.toList_some, List.flatMap_singleton, List.flatMap_cons]

theorem toList_bind {α β : Type*} (found : Option α) (parse : α → Option β) :
    (found.bind parse).toList = found.toList.filterMap parse := by
  cases found with
  | none => rfl
  | some value =>
      rw [Option.bind_some, Option.toList_some, List.filterMap_cons]
      cases parse value with
      | none => rfl
      | some result => rfl

theorem grain_visits (grain : JsonValue) :
    visitGrainJson grain = (parseGrain grain).toList.flatMap grainTokens := by
  unfold visitGrainJson parseGrain
  cases hobject : grain.asObject with
  | none => simp [getStr_eq_none hobject, visitStringArray_eq_nil hobject]
  | some fields =>
      cases grain with
      | object fields' =>
          cases hobject
          rw [getStr_object, visitStringArray_object, visitStringArray_object, Option.map_some,
            Option.toList_some, List.flatMap_singleton]
          rfl
      | _ => contradiction

theorem governance_visits {governance : JsonValue}
    (h : PiiVisitedAlike (governance.get "pii")) :
    visitGovernanceJson governance =
      (parseGovernance governance).toList.flatMap governanceTokens := by
  have hpii := (pii_visits_iff (governance.get "pii")).mpr h
  unfold visitGovernanceJson parseGovernance
  rw [hpii]
  cases hobject : governance.asObject with
  | none =>
      rw [get_eq_none hobject, getStr_eq_none hobject, visitStringArray_eq_nil hobject]
      rfl
  | some fields =>
      cases governance with
      | object fields' =>
          cases hobject
          rw [getStr_object, visitStringArray_object, Option.map_some, Option.toList_some,
            List.flatMap_singleton]
          rfl
      | _ => contradiction

/-- The written metadata lists the same tokens in the payload and in the entity. -/
theorem nova_visits {nova : JsonValue} (h : NovaVisitedAlike nova) :
    visitNovaMetaJson nova =
      (nova.asObject.map parseNovaMetaObject).toList.flatMap entityNovaTokens := by
  cases hobject : nova.asObject with
  | none =>
      unfold visitNovaMetaJson getArray
      simp [getStr_eq_none hobject, visitStringArray_eq_nil hobject, get_eq_none hobject]
  | some fields =>
      cases nova with
      | object fields' =>
          cases hobject
          have hmeasures := flatMap_visits fun measure hmeasure =>
            (measure_visits_iff measure).mpr (h.measures measure hmeasure)
          have hmetrics := flatMap_visits fun metric hmetric =>
            (metric_visits_iff metric).mpr (h.metrics metric hmetric)
          have hgrain : (fields.lookup "grain").toList.flatMap visitGrainJson =
              ((fields.lookup "grain").toList.filterMap parseGrain).flatMap grainTokens :=
            flatMap_visits fun grain _ => grain_visits grain
          have hgovernance : (fields.lookup "governance").toList.flatMap visitGovernanceJson =
              ((fields.lookup "governance").toList.filterMap parseGovernance).flatMap
                governanceTokens :=
            flatMap_visits fun governance hmem =>
              governance_visits (h.pii governance (Option.mem_toList.mp hmem))
          have hcanonical : ((fields.lookup "canonical").bind asBool = some true) =
              (((fields.lookup "canonical").bind asBool).getD false = true) := by
            cases (fields.lookup "canonical").bind asBool with
            | none => simp
            | some flag => simp
          have hget : ∀ key, (JsonValue.object fields).get key = fields.lookup key := fun _ => rfl
          unfold visitNovaMetaJson
          rw [hmeasures, hmetrics, hget "grain", hget "governance", hgrain, hgovernance,
            getStr_object, visitStringArray_object, visitStringArray_object,
            visitStringArray_object, visitStringArray_object, List.filterMap_append]
          unfold entityNovaTokens laterTokens parseNovaMetaObject getArray
          simp only [Option.map_some, Option.toList_some, List.flatMap_singleton, hget, hcanonical,
            toList_bind, List.append_assoc]
      | _ => contradiction

theorem column_visits (h : value.Ordered) : visitColumnsJson value = getColumnNames value := by
  unfold visitColumnsJson getColumnNames
  cases hcolumns : (value.get "columns").bind asObject with
  | none => rfl
  | some columns =>
      obtain ⟨child, hchild, hobject⟩ := Option.bind_eq_some_iff.mp hcolumns
      have hordered : child.Ordered := h.get hchild
      cases child with
      | object fields =>
          cases hobject
          have hle : (columns.map Prod.fst).Pairwise (· ≤ ·) :=
            hordered.1.imp fun hlt => le_of_lt hlt
          exact hle.insertionSort_eq.symm
      | _ => contradiction

theorem tag_visits (h : ∀ tag, value.get "tags" ≠ some (.string tag)) :
    visitStringArray value "tags" = ManifestParse.getTags value := by
  unfold visitStringArray getArray ManifestParse.getTags
  cases htags : value.get "tags" with
  | none => rfl
  | some tags =>
      cases tags with
      | string tag => exact absurd htags (h tag)
      | _ => rfl

/-- A payload that is visited alike lists the tokens of its entity. -/
theorem tokens_eq (hordered : value.Ordered) (h : VisitedAlike value) :
    jsonTokens value = entityTokens (fromJson value) := by
  have hnova : (entityNovaMetaJson value).toList.flatMap visitNovaMetaJson =
      (getNovaMeta value).toList.flatMap entityNovaTokens := by
    have hmerged : getNovaMeta value =
        ((entityNovaMetaJson value).bind asObject).map parseNovaMetaObject := by
      unfold getNovaMeta
      rw [h.derived]
      unfold mergeNovaMeta
      rfl
    rw [hmerged]
    cases hfound : entityNovaMetaJson value with
    | none => rfl
    | some nova =>
        rw [Option.toList_some, List.flatMap_singleton, Option.bind_some]
        exact nova_visits (h.nova nova hfound)
  unfold jsonTokens entityTokens earlierTokens fromJson
  dsimp only
  rw [tag_visits h.tags, column_visits hordered, hnova]

end Visits

/-! ## The three texts -/

section Agree
variable (toLowercase : String → String) {value : JsonValue}

/-- The three texts of an entity agree when its payload is visited alike and the order of its
synonyms and domains does not show, and only if the order does not show. -/
theorem embedding_texts_agree (hordered : value.Ordered) :
    (VisitedAlike value ∧ OrderFree toLowercase (fromJson value) →
        ∀ config, TextsAgree toLowercase value config) ∧
      ((∀ config, TextsAgree toLowercase value config) →
        OrderFree toLowercase (fromJson value)) := by
  constructor
  · rintro ⟨hvisited, horder⟩ config
    refine ⟨?_, (entity_archived_iff (fromJson value)).mpr horder config⟩
    unfold embeddingTextFromJson embeddingTextFromEntity
    rw [tokens_eq hordered hvisited]
  · intro hagree
    exact (entity_archived_iff (fromJson value)).mp fun config => (hagree config).2

end Agree

/-- A model with a column and a measure that has a second name. -/
def revenueModel : JsonValue :=
  .object [("columns", .object [("id", .object [])]),
    ("meta", .object [("nova", .object [("measures",
        .array [.object [("name", .string "revenue"), ("synonyms", .array [.string "sales"])]]),
      ("synonyms", .array [.string "income"])])]),
    ("name", .string "orders")]

theorem revenueModel_ordered : revenueModel.Ordered := by
  have hroot : ["columns", "meta", "name"].Pairwise (· < ·) := by decide
  have hnova : ["measures", "synonyms"].Pairwise (· < ·) := by decide
  have hmeasure : ["name", "synonyms"].Pairwise (· < ·) := by decide
  simp [revenueModel, Ordered, OrderedFields, OrderedValues, KeySorted] at hroot hnova hmeasure ⊢
  exact ⟨hroot, hnova, hmeasure⟩

theorem revenueModel_visitedAlike : VisitedAlike revenueModel where
  tags := by
    intro tag htag
    have hnone : revenueModel.get "tags" = none := rfl
    rw [hnone] at htag
    contradiction
  derived := rfl
  nova := by
    intro nova hnova
    cases hnova
    refine ⟨fun measure hmeasure => ?_, fun metric hmetric => ?_, fun governance hgovernance => ?_⟩
    · rw [List.mem_singleton.mp hmeasure]
      exact (measure_visits_iff _).mp rfl
    · exact absurd hmetric List.not_mem_nil
    · cases hgovernance

theorem embedding_texts_agree_revenue :
    VisitedAlike revenueModel ∧ OrderFree toAsciiLowercase (fromJson revenueModel) ∧
      TextsAgree toAsciiLowercase revenueModel {} := by
  have horder : OrderFree toAsciiLowercase (fromJson revenueModel) := by
    intro nova hnova
    cases hnova
    rfl
  exact ⟨revenueModel_visitedAlike, horder,
    (embedding_texts_agree toAsciiLowercase revenueModel_ordered).1
      ⟨revenueModel_visitedAlike, horder⟩ {}⟩

/-- A bare tag, a synonym and a domain. -/
def taggedModel : JsonValue :=
  .object [("meta", .object [("nova", .object [("domains", .array [.string "b"]),
    ("synonyms", .array [.string "a"])])]), ("tags", .string "t")]

/-- The payload leaves the bare tag out, and the archived entity turns synonym and domain. -/
theorem taggedModel_texts :
    ¬ TextsAgree toAsciiLowercase taggedModel {} ∧
      embeddingTextFromJson toAsciiLowercase taggedModel {} = "a b" ∧
      embeddingTextFromEntity toAsciiLowercase (fromJson taggedModel) {} = "t a b" ∧
      embeddingTextFromArchived toAsciiLowercase (fromJson taggedModel) {} = "t b a" := by
  have htexts : embeddingTextFromJson toAsciiLowercase taggedModel {} = "a b" ∧
      embeddingTextFromEntity toAsciiLowercase (fromJson taggedModel) {} = "t a b" ∧
      embeddingTextFromArchived toAsciiLowercase (fromJson taggedModel) {} = "t b a" := by
    decide
  refine ⟨fun hagree => ?_, htexts⟩
  have hsame := hagree.1
  rw [htexts.1, htexts.2.1] at hsame
  exact absurd hsame (by decide)

end DbtNova.EmbeddingSources
