import DbtNova.ExtendedMeta

/-!
# Embedding texts

The text an entity is embedded by: its tokens in a fixed order, each once up to
case, joined by blanks and cut at a byte bound. Lower-casing is the standard
library's; nothing is assumed about it.
-/
namespace DbtNova.EmbeddingText

open Text

/-- The text so far and the keys of the tokens in it. -/
structure TokenText where
  seen : List String := []
  text : String := ""

def addToken (toLowercase : String → String) (state : TokenText) (token : String) : TokenText :=
  let trimmed := trim token
  if trimmed = "" then state
  else
    let key := toLowercase trimmed
    if key ∈ state.seen then state
    else
      ⟨key :: state.seen, (if state.text = "" then "" else state.text ++ " ") ++ trimmed⟩

def measureTokens (measure : NovaMeasure) : List String :=
  measure.name :: measure.synonyms ++ measure.description.toList ++ measure.field.toList ++
    measure.expression.toList

def metricTokens (metric : NovaMetric) : List String :=
  metric.name :: metric.description.toList ++ metric.expression.toList ++ metric.synonyms

def grainTokens (grain : NovaGrain) : List String :=
  grain.primaryKey ++ grain.timeField.toList ++ grain.dimensions

def governanceTokens (governance : NovaGovernance) : List String :=
  governance.sensitivity.toList ++
    (match governance.pii with
      | some pii => if pii = "false" then [] else ["pii", pii]
      | none => []) ++
    governance.compliance

/-- The archived entity visits the domains before the synonyms. -/
def novaTokens (nova : NovaMeta) : List String :=
  nova.domains ++ nova.synonyms ++ nova.useCases ++ nova.exampleValues ++
    nova.measures.flatMap measureTokens ++ nova.metric.toList.flatMap metricTokens ++
    nova.metrics.flatMap metricTokens ++ (if nova.canonical then ["canonical"] else []) ++
    nova.tier.toList ++ nova.grain.toList.flatMap grainTokens ++
    nova.governance.toList.flatMap governanceTokens

def embeddingTokens (entity : Entity) : List String :=
  entity.name.toList ++ entity.entityAlias.toList ++ entity.resourceType.toList ++
    entity.description.toList ++ entity.tags ++ entity.columnNames ++
    entity.novaMeta.toList.flatMap novaTokens

def joinedTokens (toLowercase : String → String) (entity : Entity) : String :=
  ((embeddingTokens entity).foldl (addToken toLowercase) {}).text

def truncateToCharBoundary (text : String) (maxBytes : ℕ) : String :=
  if byteLength text ≤ maxBytes then text
  else (sliceTo text (floorCharBoundary text (min maxBytes (byteLength text)))).getD ""

def embeddingTextFromArchived (toLowercase : String → String) (entity : Entity)
    (config : SearchConfig) : String :=
  let text := joinedTokens toLowercase entity
  if 0 < config.vectorMaxChars then truncateToCharBoundary text config.vectorMaxChars else text

/-! ## When two bounds give the same text -/

theorem truncateToCharBoundary_eq (text : String) (maxBytes : ℕ) :
    truncateToCharBoundary text maxBytes =
      String.ofList (Boundary.cut Char.utf8Size maxBytes text.toList) := by
  rw [truncateToCharBoundary]
  split
  · rename_i hle
    obtain ⟨hkept, -, hlongest⟩ := Boundary.cut_spec Char.utf8Size_pos maxBytes text.toList
    have hall := hlongest _ (List.prefix_refl _) hle
    rw [List.IsPrefix.eq_of_length_le hkept hall.length_le, String.ofList_toList]
  · rw [Nat.min_comm, sliceTo, floorCharBoundary, byteLength, Boundary.sliceTo_floorBoundary,
      Option.map_some, Option.getD_some]

/-- A position of the text lies within the bound of a configuration. -/
def Kept (config : SearchConfig) (position : ℕ) : Prop :=
  config.vectorMaxChars = 0 ∨ position ≤ config.vectorMaxChars

/-- The bound as the cut sees it: none is as wide as the text. -/
def textBound (config : SearchConfig) (text : String) : ℕ :=
  if config.vectorMaxChars = 0 then byteLength text else config.vectorMaxChars

theorem embeddingTextFromArchived_eq (toLowercase : String → String) (entity : Entity)
    (config : SearchConfig) :
    embeddingTextFromArchived toLowercase entity config =
      truncateToCharBoundary (joinedTokens toLowercase entity)
        (textBound config (joinedTokens toLowercase entity)) := by
  rw [embeddingTextFromArchived, textBound]
  by_cases h : config.vectorMaxChars = 0
  · simp [h, truncateToCharBoundary]
  · simp [h, Nat.pos_of_ne_zero h]

theorem kept_iff {config : SearchConfig} {text : String} {position : ℕ}
    (h : isCharBoundary text position = true) :
    position ≤ textBound config text ↔ Kept config position := by
  have hle := le_byteLength_of_isCharBoundary h
  rw [textBound, Kept]
  split <;> simp_all

theorem embeddingText_same_iff (toLowercase : String → String) (entity : Entity)
    (c c' : SearchConfig) :
    embeddingTextFromArchived toLowercase entity c =
        embeddingTextFromArchived toLowercase entity c' ↔
      ∀ b, isCharBoundary (joinedTokens toLowercase entity) b = true → (Kept c b ↔ Kept c' b) := by
  rw [embeddingTextFromArchived_eq, embeddingTextFromArchived_eq, truncateToCharBoundary_eq,
    truncateToCharBoundary_eq, String.ofList_inj, Boundary.cut_eq_iff Char.utf8Size_pos]
  constructor
  · intro h b hb
    exact (kept_iff hb).symm.trans ((h b hb).trans (kept_iff hb))
  · intro h b hb
    exact (kept_iff hb).trans ((h b hb).trans (kept_iff hb).symm)

end DbtNova.EmbeddingText
