import DbtNova.Error
import DbtNova.PlainFragment
import DbtNova.SqlComparison

/-!
# The order of conjuncts

WHERE puts its conjuncts in a set, so their order is lost. ON joins its conjuncts into
one text, so only their nesting is lost. A statement is therefore free of the order of
its conjuncts when each order of an ON reads like a join that has one reading, and when
no join prints a pivot in which something can be rearranged.
-/
namespace DbtNova.ConjunctOrder
open PrintedSql SqlStructure SqlComparison

/-! ## Rearranged statements -/

section Conjuncts
variable {L : Type}

/-- The conjuncts are permuted and put in other parentheses. -/
inductive SameConjuncts : Expr L → Expr L → Prop where
  | refl (expr) : SameConjuncts expr expr
  | symm {a b} : SameConjuncts a b → SameConjuncts b a
  | trans {a b c} : SameConjuncts a b → SameConjuncts b c → SameConjuncts a c
  | comm (a b) : SameConjuncts (.and a b) (.and b a)
  | assoc (a b c) : SameConjuncts (.and (.and a b) c) (.and a (.and b c))
  | nested (a) : SameConjuncts (.nested a) a
  | and {a a' b b'} : SameConjuncts a a' → SameConjuncts b b' →
      SameConjuncts (.and a b) (.and a' b')

theorem SameConjuncts.perm {a b : Expr L} (h : SameConjuncts a b) :
    (collectAndConjuncts a).Perm (collectAndConjuncts b) := by
  induction h with
  | refl expr => exact .refl _
  | symm _ ih => exact ih.symm
  | trans _ _ ih ih' => exact ih.trans ih'
  | comm a b => exact List.perm_append_comm
  | assoc a b c =>
      simp only [collectAndConjuncts]
      rw [List.append_assoc]
  | nested a => rw [collectAndConjuncts]
  | and _ _ ih ih' => exact ih.append ih'

end Conjuncts

inductive ConstraintRearranged : JoinConstraint Literal → JoinConstraint Literal → Prop where
  | same (constraint) : ConstraintRearranged constraint constraint
  | on {condition condition'} : SameConjuncts condition condition' →
      ConstraintRearranged (.on condition) (.on condition')

inductive OperatorRearranged : JoinOperator Literal → JoinOperator Literal → Prop where
  | same (operator) : OperatorRearranged operator operator
  | constrained (kind) {constraint constraint'} : ConstraintRearranged constraint constraint' →
      OperatorRearranged (.constrained kind constraint) (.constrained kind constraint')
  | asOf (matchCondition) {constraint constraint'} : ConstraintRearranged constraint constraint' →
      OperatorRearranged (.asOf matchCondition constraint) (.asOf matchCondition constraint')

mutual

inductive QueryRearranged : Query Literal → Query Literal → Prop where
  | select {body body'} : SelectRearranged body body' →
      QueryRearranged (.select body) (.select body')
  | query {inner inner'} : QueryRearranged inner inner' →
      QueryRearranged (.query inner) (.query inner')
  | other : QueryRearranged .other .other

/-- The conjuncts of WHERE and of the joins are rearranged, here and in derived tables. -/
inductive SelectRearranged : Select Literal → Select Literal → Prop where
  | mk {tables tables' projection selection selection' prewhere having qualify groupBy} :
      TablesRearranged tables tables' → Option.Rel SameConjuncts selection selection' →
      SelectRearranged (.mk tables projection selection prewhere having qualify groupBy)
        (.mk tables' projection selection' prewhere having qualify groupBy)

inductive TablesRearranged :
    List (TableWithJoins Literal) → List (TableWithJoins Literal) → Prop where
  | nil : TablesRearranged [] []
  | cons {table table' tables tables'} : TableRearranged table table' →
      TablesRearranged tables tables' → TablesRearranged (table :: tables) (table' :: tables')

inductive TableRearranged : TableWithJoins Literal → TableWithJoins Literal → Prop where
  | mk {relation relation' joins joins'} : FactorRearranged relation relation' →
      JoinsRearranged joins joins' → TableRearranged (.mk relation joins) (.mk relation' joins')

inductive JoinsRearranged : List (Join Literal) → List (Join Literal) → Prop where
  | nil : JoinsRearranged [] []
  | cons {relation relation' operator operator' joins joins'} :
      FactorRearranged relation relation' → OperatorRearranged operator operator' →
      JoinsRearranged joins joins' →
      JoinsRearranged (.mk relation operator :: joins) (.mk relation' operator' :: joins')

/-- The parser prints a rearranged pivot anew, whichever text that is. -/
inductive FactorRearranged : TableFactor Literal → TableFactor Literal → Prop where
  | same (factor) : FactorRearranged factor factor
  | derived {subquery subquery'} (label) : QueryRearranged subquery subquery' →
      FactorRearranged (.derived subquery label) (.derived subquery' label)
  | nestedJoin {inner inner'} (label) : TableRearranged inner inner' →
      FactorRearranged (.nestedJoin inner label) (.nestedJoin inner' label)
  | pivot {source source'} (label) {printed printed'} : FactorRearranged source source' →
      (source = source' → printed = printed') →
      FactorRearranged (.pivot source label printed) (.pivot source' label printed')

end

/-! ## The joins of a statement -/

/-- A join with the aliases under which it is printed. -/
structure JoinSite where
  aliases : Aliases
  relation : TableFactor Literal
  operator : JoinOperator Literal

def JoinSite.text (site : JoinSite) : String :=
  joinSignature site.relation site.operator site.aliases

def JoinSite.withOperator (site : JoinSite) (operator : JoinOperator Literal) : JoinSite :=
  { site with operator }

mutual

def querySites : Query Literal → List JoinSite
  | .select body => selectSites body
  | .query inner => querySites inner
  | .other => []

def selectSites : Select Literal → List JoinSite
  | .mk tables _ _ _ _ _ _ => tablesSites tables (qualifierAliases tables)

def tablesSites : List (TableWithJoins Literal) → Aliases → List JoinSite
  | [], _ => []
  | table :: tables, aliases => tableSites table aliases ++ tablesSites tables aliases

def tableSites : TableWithJoins Literal → Aliases → List JoinSite
  | .mk relation joins, aliases => factorSites relation aliases ++ joinsSites joins aliases

def joinsSites : List (Join Literal) → Aliases → List JoinSite
  | [], _ => []
  | .mk relation operator :: joins, aliases =>
      factorSites relation aliases ++ ⟨aliases, relation, operator⟩ :: joinsSites joins aliases

def factorSites : TableFactor Literal → Aliases → List JoinSite
  | .derived subquery _, _ => querySites subquery
  | .nestedJoin inner _, aliases => tableSites inner aliases
  | .pivot source _ _, aliases => factorSites source aliases
  | .table _ _, _ | .tableFunction _ _, _ | .function _ _, _ | .unnest _ _, _ | .other _, _ => []

end

/-- The walk read these joins, in some order. -/
def ReadsJoins (refs : TableRefs) (sites : List JoinSite) : Prop :=
  ∀ text, text ∈ refs.joins ↔ text ∈ sites.map JoinSite.text

theorem ReadsJoins.append {a b : TableRefs} {sites others : List JoinSite} (ha : ReadsJoins a sites)
    (hb : ReadsJoins b others) : ReadsJoins (a.append b) (sites ++ others) := by
  intro text
  have happend : (a.append b).joins = a.joins ++ b.joins := rfl
  rw [happend, List.mem_append, ha, hb, List.map_append, List.mem_append]

theorem readsJoins_nil (tables : List String) : ReadsJoins ⟨tables, []⟩ [] := fun _ => Iff.rfl

mutual

theorem querySites_spec : ∀ (query : Query Literal) {signature : SqlStructureSignature},
    signatureForQuery query = .ok signature → ReadsJoins signature.refs (querySites query)
  | .select (.mk tables projection selection prewhere having qualify groupBy), signature, h => by
      rw [signatureForQuery, signatureForSelect] at h
      obtain ⟨refs, hrefs, h⟩ := bind_eq_ok.mp h
      have hjoins := tablesSites_spec tables hrefs
      rw [← Except.ok.inj h, querySites, selectSites]
      exact fun text => mem_sortedSet.trans (hjoins text)
  | .query inner, signature, h => by
      rw [signatureForQuery] at h
      rw [querySites]
      exact querySites_spec inner h
  | .other, signature, h => by
      rw [signatureForQuery] at h
      cases h

theorem tablesSites_spec : ∀ (tables : List (TableWithJoins Literal)) {aliases : Aliases}
    {refs : TableRefs}, collectTables tables aliases = .ok refs →
      ReadsJoins refs (tablesSites tables aliases)
  | [], aliases, refs, h => by
      rw [collectTables] at h
      rw [← Except.ok.inj h, tablesSites]
      exact readsJoins_nil []
  | table :: tables, aliases, refs, h => by
      rw [collectTables] at h
      obtain ⟨first, hfirst, h⟩ := bind_eq_ok.mp h
      obtain ⟨others, hothers, h⟩ := bind_eq_ok.mp h
      rw [← Except.ok.inj h, tablesSites]
      exact (tableSites_spec table hfirst).append (tablesSites_spec tables hothers)

theorem tableSites_spec : ∀ (table : TableWithJoins Literal) {aliases : Aliases}
    {refs : TableRefs}, collectTableWithJoins table aliases = .ok refs →
      ReadsJoins refs (tableSites table aliases)
  | .mk relation joins, aliases, refs, h => by
      rw [collectTableWithJoins] at h
      obtain ⟨first, hfirst, h⟩ := bind_eq_ok.mp h
      obtain ⟨others, hothers, h⟩ := bind_eq_ok.mp h
      rw [← Except.ok.inj h, tableSites]
      exact (factorSites_spec relation hfirst).append (joinsSites_spec joins hothers)

theorem joinsSites_spec : ∀ (joins : List (Join Literal)) {aliases : Aliases} {refs : TableRefs},
    collectJoins joins aliases = .ok refs → ReadsJoins refs (joinsSites joins aliases)
  | [], aliases, refs, h => by
      rw [collectJoins] at h
      rw [← Except.ok.inj h, joinsSites]
      exact readsJoins_nil []
  | .mk relation operator :: joins, aliases, refs, h => by
      rw [collectJoins] at h
      obtain ⟨first, hfirst, h⟩ := bind_eq_ok.mp h
      obtain ⟨others, hothers, h⟩ := bind_eq_ok.mp h
      have hself : ReadsJoins ⟨[], [joinSignature relation operator aliases]⟩
          [⟨aliases, relation, operator⟩] := fun _ => Iff.rfl
      rw [← Except.ok.inj h, joinsSites, List.append_cons]
      exact ((factorSites_spec relation hfirst).append hself).append (joinsSites_spec joins hothers)

theorem factorSites_spec : ∀ (factor : TableFactor Literal) {aliases : Aliases}
    {refs : TableRefs}, collectTableFactorRefs factor aliases = .ok refs →
      ReadsJoins refs (factorSites factor aliases)
  | .derived subquery label, aliases, refs, h => by
      rw [collectTableFactorRefs] at h
      obtain ⟨signature, hsignature, h⟩ := bind_eq_ok.mp h
      rw [← Except.ok.inj h, factorSites]
      exact querySites_spec subquery hsignature
  | .nestedJoin inner label, aliases, refs, h => by
      rw [collectTableFactorRefs] at h
      rw [factorSites]
      exact tableSites_spec inner h
  | .pivot source label printed, aliases, refs, h => by
      rw [collectTableFactorRefs] at h
      rw [factorSites]
      exact factorSites_spec source h
  | .table name label, aliases, refs, h => by
      rw [collectTableFactorRefs] at h
      rw [← Except.ok.inj h, factorSites]
      exact readsJoins_nil _
  | .tableFunction value label, aliases, refs, h => by
      rw [collectTableFactorRefs] at h
      rw [← Except.ok.inj h, factorSites]
      exact readsJoins_nil _
  | .function name label, aliases, refs, h => by
      rw [collectTableFactorRefs] at h
      rw [← Except.ok.inj h, factorSites]
      exact readsJoins_nil _
  | .unnest values label, aliases, refs, h => by
      rw [collectTableFactorRefs] at h
      rw [← Except.ok.inj h, factorSites]
      exact readsJoins_nil _
  | .other printed, aliases, refs, h => by
      rw [collectTableFactorRefs] at h
      rw [← Except.ok.inj h, factorSites]
      exact readsJoins_nil _

end

/-! ## What a rearrangement keeps -/

mutual

theorem registerTableFactorAliases_rearranged : ∀ {factor factor' : TableFactor Literal},
    FactorRearranged factor factor' → ∀ aliases,
      registerTableFactorAliases factor' aliases = registerTableFactorAliases factor aliases
  | _, _, .same factor, aliases => rfl
  | _, _, .derived label h, aliases => by
      rw [registerTableFactorAliases, registerTableFactorAliases]
  | _, _, .nestedJoin label h, aliases => by
      rw [registerTableFactorAliases, registerTableFactorAliases,
        registerTableAliases_rearranged h]
  | _, _, .pivot label h hprinted, aliases => by
      rw [registerTableFactorAliases, registerTableFactorAliases,
        registerTableFactorAliases_rearranged h]

theorem registerTableAliases_rearranged : ∀ {table table' : TableWithJoins Literal},
    TableRearranged table table' → ∀ aliases,
      registerTableAliases table' aliases = registerTableAliases table aliases
  | _, _, .mk hrelation hjoins, aliases => by
      rw [registerTableAliases, registerTableAliases,
        registerTableFactorAliases_rearranged hrelation, registerJoinAliases_rearranged hjoins]

theorem registerJoinAliases_rearranged : ∀ {joins joins' : List (Join Literal)},
    JoinsRearranged joins joins' → ∀ aliases,
      registerJoinAliases joins' aliases = registerJoinAliases joins aliases
  | _, _, .nil, aliases => rfl
  | _, _, .cons hrelation hoperator hjoins, aliases => by
      rw [registerJoinAliases, registerJoinAliases,
        registerTableFactorAliases_rearranged hrelation, registerJoinAliases_rearranged hjoins]

end

theorem registerTables_rearranged : ∀ {tables tables' : List (TableWithJoins Literal)},
    TablesRearranged tables tables' → ∀ aliases : Aliases,
      tables'.foldl (fun aliases table => registerTableAliases table aliases) aliases =
        tables.foldl (fun aliases table => registerTableAliases table aliases) aliases
  | _, _, .nil, aliases => rfl
  | _, _, .cons htable htables, aliases => by
      rw [List.foldl_cons, List.foldl_cons, registerTableAliases_rearranged htable,
        registerTables_rearranged htables]

theorem qualifierAliases_rearranged {tables tables' : List (TableWithJoins Literal)}
    (h : TablesRearranged tables tables') : qualifierAliases tables' = qualifierAliases tables :=
  congrArg preserveReusedTableAliases (registerTables_rearranged h [])

/-- The walk reads the same tables, or fails with the same message. -/
def SameTables (x x' : Except String TableRefs) : Prop :=
  x'.map TableRefs.tables = x.map TableRefs.tables

theorem SameTables.walk {x x' y y' : Except String TableRefs}
    {join join' : TableRefs → TableRefs → TableRefs} (hx : SameTables x x') (hy : SameTables y y')
    (hjoin : ∀ a b, (join a b).tables = a.tables ++ b.tables)
    (hjoin' : ∀ a b, (join' a b).tables = a.tables ++ b.tables) :
    SameTables (do
        let first ← x
        let others ← y
        return join first others)
      (do
        let first ← x'
        let others ← y'
        return join' first others) := by
  unfold SameTables at hx hy ⊢
  cases x with
  | error message =>
      cases x' with
      | error message' => exact hx
      | ok first' => exact nomatch hx
  | ok first =>
      cases x' with
      | error message' => exact nomatch hx
      | ok first' =>
          cases y with
          | error message =>
              cases y' with
              | error message' => exact hy
              | ok others' => exact nomatch hy
          | ok others =>
              cases y' with
              | error message' => exact nomatch hy
              | ok others' =>
                  have hfirst : first'.tables = first.tables := Except.ok.inj hx
                  have hothers : others'.tables = others.tables := Except.ok.inj hy
                  have hwhole : (join' first' others').tables = (join first others).tables := by
                    rw [hjoin, hjoin', hfirst, hothers]
                  exact congrArg Except.ok hwhole

theorem SameTables.sorted {x x' : Except String TableRefs} (h : SameTables x x') :
    SameTables (x.map fun refs => ⟨Text.sortedSet refs.tables, Text.sortedSet refs.joins⟩)
      (x'.map fun refs => ⟨Text.sortedSet refs.tables, Text.sortedSet refs.joins⟩) := by
  unfold SameTables at h ⊢
  cases x with
  | error message =>
      cases x' with
      | error message' => exact h
      | ok refs' => exact nomatch h
  | ok refs =>
      cases x' with
      | error message' => exact nomatch h
      | ok refs' =>
          have htables : refs'.tables = refs.tables := Except.ok.inj h
          exact congrArg (fun tables => Except.ok (Text.sortedSet tables)) htables

mutual

theorem signatureForQuery_tables : ∀ {query query' : Query Literal}, QueryRearranged query query' →
    SameTables ((signatureForQuery query).map SqlStructureSignature.refs)
      ((signatureForQuery query').map SqlStructureSignature.refs)
  | _, _, .select (.mk htables hselection) => by
      rw [signatureForQuery, signatureForQuery, select_refs, select_refs,
        qualifierAliases_rearranged htables]
      exact (collectTables_tables htables _).sorted
  | _, _, .query h => by
      rw [signatureForQuery, signatureForQuery]
      exact signatureForQuery_tables h
  | _, _, .other => rfl

theorem collectTables_tables : ∀ {tables tables' : List (TableWithJoins Literal)},
    TablesRearranged tables tables' → ∀ aliases,
      SameTables (collectTables tables aliases) (collectTables tables' aliases)
  | _, _, .nil, aliases => rfl
  | _, _, .cons htable htables, aliases => by
      rw [collectTables, collectTables]
      exact (collectTableWithJoins_tables htable aliases).walk
        (collectTables_tables htables aliases) (fun _ _ => rfl) fun _ _ => rfl

theorem collectTableWithJoins_tables : ∀ {table table' : TableWithJoins Literal},
    TableRearranged table table' → ∀ aliases,
      SameTables (collectTableWithJoins table aliases) (collectTableWithJoins table' aliases)
  | _, _, .mk hrelation hjoins, aliases => by
      rw [collectTableWithJoins, collectTableWithJoins]
      exact (collectTableFactorRefs_tables hrelation aliases).walk
        (collectJoins_tables hjoins aliases) (fun _ _ => rfl) fun _ _ => rfl

theorem collectJoins_tables : ∀ {joins joins' : List (Join Literal)},
    JoinsRearranged joins joins' → ∀ aliases,
      SameTables (collectJoins joins aliases) (collectJoins joins' aliases)
  | _, _, .nil, aliases => rfl
  | _, _, .cons hrelation hoperator hjoins, aliases => by
      have hself : ∀ (text : String) (a b : TableRefs),
          ((a.append ⟨[], [text]⟩).append b).tables = a.tables ++ b.tables := fun text a b =>
        congrArg (· ++ b.tables) (List.append_nil a.tables)
      rw [collectJoins, collectJoins]
      exact (collectTableFactorRefs_tables hrelation aliases).walk
        (collectJoins_tables hjoins aliases) (hself _) (hself _)

theorem collectTableFactorRefs_tables : ∀ {factor factor' : TableFactor Literal},
    FactorRearranged factor factor' → ∀ aliases,
      SameTables (collectTableFactorRefs factor aliases) (collectTableFactorRefs factor' aliases)
  | _, _, .same factor, aliases => rfl
  | _, _, .derived label h, aliases => by
      rw [derived_refs, derived_refs]
      exact signatureForQuery_tables h
  | _, _, .nestedJoin label h, aliases => by
      rw [collectTableFactorRefs, collectTableFactorRefs]
      exact collectTableWithJoins_tables h aliases
  | _, _, .pivot label h hprinted, aliases => by
      rw [collectTableFactorRefs, collectTableFactorRefs]
      exact collectTableFactorRefs_tables h aliases

end

/-- The same join, rearranged. -/
def SiteRearranged (site site' : JoinSite) : Prop :=
  site'.aliases = site.aliases ∧ FactorRearranged site.relation site'.relation ∧
    OperatorRearranged site.operator site'.operator

theorem SiteRearranged.refl (site : JoinSite) : SiteRearranged site site :=
  ⟨rfl, .same site.relation, .same site.operator⟩

theorem sites_refl (sites : List JoinSite) : List.Forall₂ SiteRearranged sites sites :=
  List.forall₂_same.mpr fun site _ => .refl site

mutual

theorem querySites_rearranged : ∀ {query query' : Query Literal}, QueryRearranged query query' →
    List.Forall₂ SiteRearranged (querySites query) (querySites query')
  | _, _, .select h => by
      rw [querySites, querySites]
      exact selectSites_rearranged h
  | _, _, .query h => by
      rw [querySites, querySites]
      exact querySites_rearranged h
  | _, _, .other => sites_refl _

theorem selectSites_rearranged : ∀ {select select' : Select Literal},
    SelectRearranged select select' →
      List.Forall₂ SiteRearranged (selectSites select) (selectSites select')
  | _, _, .mk htables hselection => by
      rw [selectSites, selectSites, qualifierAliases_rearranged htables]
      exact tablesSites_rearranged htables _

theorem tablesSites_rearranged : ∀ {tables tables' : List (TableWithJoins Literal)},
    TablesRearranged tables tables' → ∀ aliases,
      List.Forall₂ SiteRearranged (tablesSites tables aliases) (tablesSites tables' aliases)
  | _, _, .nil, aliases => sites_refl _
  | _, _, .cons htable htables, aliases => by
      rw [tablesSites, tablesSites]
      exact List.rel_append (tableSites_rearranged htable aliases)
        (tablesSites_rearranged htables aliases)

theorem tableSites_rearranged : ∀ {table table' : TableWithJoins Literal},
    TableRearranged table table' → ∀ aliases,
      List.Forall₂ SiteRearranged (tableSites table aliases) (tableSites table' aliases)
  | _, _, .mk hrelation hjoins, aliases => by
      rw [tableSites, tableSites]
      exact List.rel_append (factorSites_rearranged hrelation aliases)
        (joinsSites_rearranged hjoins aliases)

theorem joinsSites_rearranged : ∀ {joins joins' : List (Join Literal)},
    JoinsRearranged joins joins' → ∀ aliases,
      List.Forall₂ SiteRearranged (joinsSites joins aliases) (joinsSites joins' aliases)
  | _, _, .nil, aliases => sites_refl _
  | _, _, .cons hrelation hoperator hjoins, aliases => by
      rw [joinsSites, joinsSites]
      exact List.rel_append (factorSites_rearranged hrelation aliases)
        (.cons ⟨rfl, hrelation, hoperator⟩ (joinsSites_rearranged hjoins aliases))

theorem factorSites_rearranged : ∀ {factor factor' : TableFactor Literal},
    FactorRearranged factor factor' → ∀ aliases,
      List.Forall₂ SiteRearranged (factorSites factor aliases) (factorSites factor' aliases)
  | _, _, .same factor, aliases => sites_refl _
  | _, _, .derived label h, aliases => by
      rw [factorSites, factorSites]
      exact querySites_rearranged h
  | _, _, .nestedJoin label h, aliases => by
      rw [factorSites, factorSites]
      exact tableSites_rearranged h aliases
  | _, _, .pivot label h hprinted, aliases => by
      rw [factorSites, factorSites]
      exact factorSites_rearranged h aliases

end

/-! ## Statements that are free of the order -/

/-- In a pivot, which is printed as a whole, nothing can be rearranged. -/
def PivotFixed (factor : TableFactor Literal) : Prop :=
  ∀ source label printed, factor = .pivot source label printed →
    ∀ source', FactorRearranged source source' → source' = source

/-- All orders of the conjuncts give one text. -/
def ReadsOneWay (site : JoinSite) : Prop :=
  ∀ operator, OperatorRearranged site.operator operator →
    (site.withOperator operator).text = site.text

/-- Each order of each ON is the text of a join that reads one way. -/
structure OrderFree (select : Select Literal) : Prop where
  pivots : ∀ site ∈ selectSites select, PivotFixed site.relation
  joins : ∀ site ∈ selectSites select, ∀ operator, OperatorRearranged site.operator operator →
    ∃ other ∈ selectSites select, ReadsOneWay other ∧
      other.text = (site.withOperator operator).text

theorem tableFactorLabel_rearranged {factor factor' : TableFactor Literal}
    (h : FactorRearranged factor factor') (hfixed : PivotFixed factor) (aliases : Aliases) :
    tableFactorLabel factor' aliases = tableFactorLabel factor aliases := by
  cases h with
  | same factor => rfl
  | derived label h => cases label <;> rfl
  | nestedJoin label h => rfl
  | pivot label hsource hprinted =>
      have hsame := hfixed _ _ _ rfl _ hsource
      rw [hsame, hprinted hsame.symm]

theorem SiteRearranged.text_eq {site site' : JoinSite} (h : SiteRearranged site site')
    (hfixed : PivotFixed site.relation) :
    site'.text = (site.withOperator site'.operator).text := by
  obtain ⟨haliases, hrelation, -⟩ := h
  unfold JoinSite.text JoinSite.withOperator joinSignature
  rw [haliases, tableFactorLabel_rearranged hrelation hfixed]

theorem OrderFree.same_joins {select select' : Select Literal} (h : OrderFree select)
    (hrearranged : SelectRearranged select select') (text : String) :
    text ∈ (selectSites select').map JoinSite.text ↔
      text ∈ (selectSites select).map JoinSite.text := by
  have hsites := selectSites_rearranged hrearranged
  obtain ⟨hlength, hpairs⟩ := List.forall₂_iff_get.mp hsites
  constructor
  · intro hmem
    obtain ⟨site', hsite', rfl⟩ := List.mem_map.mp hmem
    obtain ⟨i, hi, rfl⟩ := List.mem_iff_getElem.mp hsite'
    have hpair := hpairs i (hlength ▸ hi) hi
    have hsite := List.get_mem (selectSites select) ⟨i, hlength ▸ hi⟩
    obtain ⟨other, hother, -, htext⟩ := h.joins _ hsite _ hpair.2.2
    exact List.mem_map.mpr ⟨other, hother, htext.trans (hpair.text_eq (h.pivots _ hsite)).symm⟩
  · intro hmem
    obtain ⟨site, hsite, rfl⟩ := List.mem_map.mp hmem
    obtain ⟨other, hother, honly, htext⟩ := h.joins site hsite _ (.same site.operator)
    -- the join with this text keeps it, whatever its rearrangement
    obtain ⟨i, hi, rfl⟩ := List.mem_iff_getElem.mp hother
    have hpair := hpairs i hi (hlength ▸ hi)
    have hkept := (hpair.text_eq (h.pivots _ hother)).trans (honly _ hpair.2.2)
    exact List.mem_map.mpr ⟨_, List.get_mem (selectSites select') ⟨i, hlength ▸ hi⟩,
      hkept.trans htext⟩

theorem collectFilters_rearranged {selection selection' : Option (Expr Literal)}
    (h : Option.Rel SameConjuncts selection selection')
    (prewhere having qualify : Option (Expr Literal)) (aliases : Aliases) :
    Text.sortedSet (collectFilters selection' prewhere having qualify aliases) =
      Text.sortedSet (collectFilters selection prewhere having qualify aliases) := by
  have hconjuncts : (selection'.toList.flatMap fun expr =>
        (collectAndConjuncts expr).map fun conjunct => normalizeExpr conjunct aliases).Perm
      (selection.toList.flatMap fun expr =>
        (collectAndConjuncts expr).map fun conjunct => normalizeExpr conjunct aliases) := by
    cases h with
    | none => exact .refl _
    | some hconjuncts =>
        simp only [Option.toList_some, List.flatMap_singleton]
        exact hconjuncts.perm.symm.map _
  apply sortedSet_eq_iff.mpr
  intro text
  unfold collectFilters
  exact (((hconjuncts.append_right _).append_right _).append_right _).mem_iff

/-- Of the signature only the joins can change. -/
theorem signature_eq_iff {select select' : Select Literal} (h : SelectRearranged select select') :
    signatureForSelect select' = signatureForSelect select ↔
      (selectGradable select = true → ∀ text, text ∈ (selectSites select').map JoinSite.text ↔
        text ∈ (selectSites select).map JoinSite.text) := by
  cases h with
  | @mk tables tables' projection selection selection' prewhere having qualify groupBy htables
      hselection =>
      have haliases := qualifierAliases_rearranged htables
      have hsame := collectTables_tables htables (qualifierAliases tables)
      have hok := collectTables_ok tables (qualifierAliases tables)
      have hspec := @tablesSites_spec tables (qualifierAliases tables)
      have hspec' := @tablesSites_spec tables' (qualifierAliases tables)
      unfold SameTables at hsame
      rw [signatureForSelect, signatureForSelect, selectGradable, selectSites, selectSites,
        haliases, ← hok, collectFilters_rearranged hselection]
      generalize tablesSites tables (qualifierAliases tables) = sites at hspec ⊢
      generalize tablesSites tables' (qualifierAliases tables) = sites' at hspec' ⊢
      generalize collectTables tables (qualifierAliases tables) = x at hsame hspec ⊢
      generalize collectTables tables' (qualifierAliases tables) = x' at hsame hspec' ⊢
      cases x with
      | error message =>
          cases x' with
          | ok refs' => exact nomatch hsame
          | error message' =>
              refine iff_of_true ?_ fun ⟨_, hrefs⟩ => nomatch hrefs
              exact congrArg Except.error (Except.error.inj hsame)
      | ok refs =>
          cases x' with
          | error message' => exact nomatch hsame
          | ok refs' =>
              have htexts : refs'.tables = refs.tables := Except.ok.inj hsame
              have hjoins : Text.sortedSet refs'.joins = Text.sortedSet refs.joins ↔
                  ∀ text, text ∈ sites'.map JoinSite.text ↔ text ∈ sites.map JoinSite.text := by
                rw [sortedSet_eq_iff]
                exact forall_congr' fun text => by rw [hspec' rfl, hspec rfl]
              rw [← hjoins]
              constructor
              · intro heq _
                exact congrArg SqlStructureSignature.joins (Except.ok.inj heq)
              · intro heq
                simp only [bind, Except.bind, pure, Except.pure, htexts, heq ⟨refs, rfl⟩]

/-! ## Rearrangements that show the order -/

theorem JoinsRearranged.refl (joins : List (Join Literal)) : JoinsRearranged joins joins := by
  induction joins with
  | nil => exact .nil
  | cons join joins ih =>
      cases join with
      | mk relation operator => exact .cons (.same relation) (.same operator) ih

theorem TableRearranged.refl (table : TableWithJoins Literal) : TableRearranged table table := by
  cases table with
  | mk relation joins => exact .mk (.same relation) (.refl joins)

theorem TablesRearranged.refl (tables : List (TableWithJoins Literal)) :
    TablesRearranged tables tables := by
  induction tables with
  | nil => exact .nil
  | cons table tables ih => exact .cons (.refl table) ih

theorem conjuncts_refl (selection : Option (Expr Literal)) :
    Option.Rel SameConjuncts selection selection := by
  cases selection with
  | none => exact .none
  | some expr => exact .some (.refl expr)

section Replace
variable {site site' : JoinSite}

mutual

theorem exists_replaced_query (hsite : SiteRearranged site site') :
    ∀ query : Query Literal, site ∈ querySites query →
      ∃ query', QueryRearranged query query' ∧ site' ∈ querySites query'
  | .select body, h => by
      rw [querySites] at h
      obtain ⟨body', hbody, hmem⟩ := exists_replaced_select hsite body h
      exact ⟨.select body', .select hbody, by rwa [querySites]⟩
  | .query inner, h => by
      rw [querySites] at h
      obtain ⟨inner', hinner, hmem⟩ := exists_replaced_query hsite inner h
      exact ⟨.query inner', .query hinner, by rwa [querySites]⟩
  | .other, h => by
      rw [querySites] at h
      exact absurd h List.not_mem_nil

/-- Any join can be rearranged alone. -/
theorem exists_replaced_select (hsite : SiteRearranged site site') :
    ∀ select : Select Literal, site ∈ selectSites select →
      ∃ select', SelectRearranged select select' ∧ site' ∈ selectSites select'
  | .mk tables projection selection prewhere having qualify groupBy, h => by
      rw [selectSites] at h
      obtain ⟨tables', htables, hmem⟩ := exists_replaced_tables hsite tables _ h
      refine ⟨.mk tables' projection selection prewhere having qualify groupBy,
        .mk htables (conjuncts_refl selection), ?_⟩
      rwa [selectSites, qualifierAliases_rearranged htables]

theorem exists_replaced_tables (hsite : SiteRearranged site site') :
    ∀ (tables : List (TableWithJoins Literal)) (aliases : Aliases),
      site ∈ tablesSites tables aliases →
      ∃ tables', TablesRearranged tables tables' ∧ site' ∈ tablesSites tables' aliases
  | [], aliases, h => by
      rw [tablesSites] at h
      exact absurd h List.not_mem_nil
  | table :: tables, aliases, h => by
      rw [tablesSites] at h
      cases List.mem_append.mp h with
      | inl hfirst =>
          obtain ⟨table', htable, hmem⟩ := exists_replaced_table hsite table aliases hfirst
          refine ⟨table' :: tables, .cons htable (.refl tables), ?_⟩
          rw [tablesSites]
          exact List.mem_append_left _ hmem
      | inr hothers =>
          obtain ⟨tables', htables, hmem⟩ := exists_replaced_tables hsite tables aliases hothers
          refine ⟨table :: tables', .cons (.refl table) htables, ?_⟩
          rw [tablesSites]
          exact List.mem_append_right _ hmem

theorem exists_replaced_table (hsite : SiteRearranged site site') :
    ∀ (table : TableWithJoins Literal) (aliases : Aliases), site ∈ tableSites table aliases →
      ∃ table', TableRearranged table table' ∧ site' ∈ tableSites table' aliases
  | .mk relation joins, aliases, h => by
      rw [tableSites] at h
      cases List.mem_append.mp h with
      | inl hfirst =>
          obtain ⟨relation', hrelation, hmem⟩ :=
            exists_replaced_factor hsite relation aliases hfirst
          refine ⟨.mk relation' joins, .mk hrelation (.refl joins), ?_⟩
          rw [tableSites]
          exact List.mem_append_left _ hmem
      | inr hothers =>
          obtain ⟨joins', hjoins, hmem⟩ := exists_replaced_joins hsite joins aliases hothers
          refine ⟨.mk relation joins', .mk (.same relation) hjoins, ?_⟩
          rw [tableSites]
          exact List.mem_append_right _ hmem

theorem exists_replaced_joins (hsite : SiteRearranged site site') :
    ∀ (joins : List (Join Literal)) (aliases : Aliases), site ∈ joinsSites joins aliases →
      ∃ joins', JoinsRearranged joins joins' ∧ site' ∈ joinsSites joins' aliases
  | [], aliases, h => by
      rw [joinsSites] at h
      exact absurd h List.not_mem_nil
  | .mk relation operator :: joins, aliases, h => by
      rw [joinsSites] at h
      cases List.mem_append.mp h with
      | inl hfirst =>
          obtain ⟨relation', hrelation, hmem⟩ :=
            exists_replaced_factor hsite relation aliases hfirst
          refine ⟨.mk relation' operator :: joins,
            .cons hrelation (.same operator) (.refl joins), ?_⟩
          rw [joinsSites]
          exact List.mem_append_left _ hmem
      | inr hrest =>
          cases List.mem_cons.mp hrest with
          | inl hself =>
              obtain ⟨haliases, hrelation, hoperator⟩ := hsite
              rw [hself] at haliases hrelation hoperator
              refine ⟨.mk site'.relation site'.operator :: joins,
                .cons hrelation hoperator (.refl joins), ?_⟩
              rw [joinsSites]
              refine List.mem_append_right _ (List.mem_cons.mpr (.inl ?_))
              exact congrArg (fun al => JoinSite.mk al site'.relation site'.operator) haliases
          | inr hothers =>
              obtain ⟨joins', hjoins, hmem⟩ := exists_replaced_joins hsite joins aliases hothers
              refine ⟨.mk relation operator :: joins',
                .cons (.same relation) (.same operator) hjoins, ?_⟩
              rw [joinsSites]
              exact List.mem_append_right _ (List.mem_cons_of_mem _ hmem)

theorem exists_replaced_factor (hsite : SiteRearranged site site') :
    ∀ (factor : TableFactor Literal) (aliases : Aliases), site ∈ factorSites factor aliases →
      ∃ factor', FactorRearranged factor factor' ∧ site' ∈ factorSites factor' aliases
  | .derived subquery label, aliases, h => by
      rw [factorSites] at h
      obtain ⟨subquery', hsubquery, hmem⟩ := exists_replaced_query hsite subquery h
      exact ⟨.derived subquery' label, .derived label hsubquery, by rwa [factorSites]⟩
  | .nestedJoin inner label, aliases, h => by
      rw [factorSites] at h
      obtain ⟨inner', hinner, hmem⟩ := exists_replaced_table hsite inner aliases h
      exact ⟨.nestedJoin inner' label, .nestedJoin label hinner, by rwa [factorSites]⟩
  | .pivot source label printed, aliases, h => by
      rw [factorSites] at h
      obtain ⟨source', hsource, hmem⟩ := exists_replaced_factor hsite source aliases h
      exact ⟨.pivot source' label printed, .pivot label hsource fun _ => rfl,
        by rwa [factorSites]⟩
  | .table _ _, aliases, h | .tableFunction _ _, aliases, h | .function _ _, aliases, h
  | .unnest _ _, aliases, h | .other _, aliases, h => by
      rw [factorSites] at h
      exact absurd h List.not_mem_nil

end

end Replace

/-- A join of the second list reads so only where one of the first always does. -/
def Avoids (text : String) (sites sites' : List JoinSite) : Prop :=
  ∀ site' ∈ sites', site'.text = text → ∃ site ∈ sites, ReadsOneWay site ∧ site.text = text

theorem avoids_nil (text : String) (sites : List JoinSite) : Avoids text sites [] :=
  fun _ h => absurd h List.not_mem_nil

section Avoid
variable {text : String}

theorem Avoids.append {sites sites' others others' : List JoinSite} (h : Avoids text sites sites')
    (hothers : Avoids text others others') : Avoids text (sites ++ others) (sites' ++ others') := by
  intro site' hsite' htext
  cases List.mem_append.mp hsite' with
  | inl hmem =>
      obtain ⟨site, hsite, hreads⟩ := h site' hmem htext
      exact ⟨site, List.mem_append_left _ hsite, hreads⟩
  | inr hmem =>
      obtain ⟨site, hsite, hreads⟩ := hothers site' hmem htext
      exact ⟨site, List.mem_append_right _ hsite, hreads⟩

/-- One join can be put in another order than the one with this text, if it has one. -/
theorem exists_avoiding_site (site : JoinSite) (hfixed : PivotFixed site.relation)
    {relation' : TableFactor Literal} (hrelation : FactorRearranged site.relation relation') :
    ∃ operator', OperatorRearranged site.operator operator' ∧
      Avoids text [site] [⟨site.aliases, relation', operator'⟩] := by
  have hread : ∀ operator', OperatorRearranged site.operator operator' →
      JoinSite.text ⟨site.aliases, relation', operator'⟩ = (site.withOperator operator').text :=
    fun operator' hoperator =>
      SiteRearranged.text_eq ⟨rfl, hrelation, hoperator⟩ hfixed
  by_cases hother : ∃ operator', OperatorRearranged site.operator operator' ∧
      (site.withOperator operator').text ≠ text
  · obtain ⟨operator', hoperator, hne⟩ := hother
    refine ⟨operator', hoperator, fun site' hsite' htext => absurd ?_ hne⟩
    rw [List.mem_singleton.mp hsite', hread operator' hoperator] at htext
    exact htext
  · have hall : ∀ operator', OperatorRearranged site.operator operator' →
        (site.withOperator operator').text = text := fun operator' hoperator =>
      not_not.mp fun hne => hother ⟨operator', hoperator, hne⟩
    have hself : site.text = text := hall site.operator (.same site.operator)
    exact ⟨site.operator, .same site.operator, fun _ _ _ => ⟨site, List.mem_singleton.mpr rfl,
      fun operator' hoperator => (hall operator' hoperator).trans hself.symm, hself⟩⟩

mutual

theorem exists_avoiding_query : ∀ query : Query Literal,
    (∀ site ∈ querySites query, PivotFixed site.relation) →
      ∃ query', QueryRearranged query query' ∧ Avoids text (querySites query) (querySites query')
  | .select body, h => by
      rw [querySites] at h
      obtain ⟨body', hbody, havoids⟩ := exists_avoiding_select body h
      exact ⟨.select body', .select hbody, by rwa [querySites, querySites]⟩
  | .query inner, h => by
      rw [querySites] at h
      obtain ⟨inner', hinner, havoids⟩ := exists_avoiding_query inner h
      exact ⟨.query inner', .query hinner, by rwa [querySites, querySites]⟩
  | .other, h => ⟨.other, .other, by rw [querySites]; exact avoids_nil text _⟩

/-- All joins can be rearranged to leave a text to those that always have it. -/
theorem exists_avoiding_select : ∀ select : Select Literal,
    (∀ site ∈ selectSites select, PivotFixed site.relation) →
      ∃ select', SelectRearranged select select' ∧
        Avoids text (selectSites select) (selectSites select')
  | .mk tables projection selection prewhere having qualify groupBy, h => by
      rw [selectSites] at h
      obtain ⟨tables', htables, havoids⟩ := exists_avoiding_tables tables _ h
      refine ⟨.mk tables' projection selection prewhere having qualify groupBy,
        .mk htables (conjuncts_refl selection), ?_⟩
      rwa [selectSites, selectSites, qualifierAliases_rearranged htables]

theorem exists_avoiding_tables : ∀ (tables : List (TableWithJoins Literal)) (aliases : Aliases),
    (∀ site ∈ tablesSites tables aliases, PivotFixed site.relation) →
      ∃ tables', TablesRearranged tables tables' ∧
        Avoids text (tablesSites tables aliases) (tablesSites tables' aliases)
  | [], aliases, h => ⟨[], .nil, by rw [tablesSites]; exact avoids_nil text _⟩
  | table :: tables, aliases, h => by
      rw [tablesSites, List.forall_mem_append] at h
      obtain ⟨table', htable, hfirst⟩ := exists_avoiding_table table aliases h.1
      obtain ⟨tables', htables, hothers⟩ := exists_avoiding_tables tables aliases h.2
      refine ⟨table' :: tables', .cons htable htables, ?_⟩
      rw [tablesSites, tablesSites]
      exact hfirst.append hothers

theorem exists_avoiding_table : ∀ (table : TableWithJoins Literal) (aliases : Aliases),
    (∀ site ∈ tableSites table aliases, PivotFixed site.relation) →
      ∃ table', TableRearranged table table' ∧
        Avoids text (tableSites table aliases) (tableSites table' aliases)
  | .mk relation joins, aliases, h => by
      rw [tableSites, List.forall_mem_append] at h
      obtain ⟨relation', hrelation, hfirst⟩ := exists_avoiding_factor relation aliases h.1
      obtain ⟨joins', hjoins, hothers⟩ := exists_avoiding_joins joins aliases h.2
      refine ⟨.mk relation' joins', .mk hrelation hjoins, ?_⟩
      rw [tableSites, tableSites]
      exact hfirst.append hothers

theorem exists_avoiding_joins : ∀ (joins : List (Join Literal)) (aliases : Aliases),
    (∀ site ∈ joinsSites joins aliases, PivotFixed site.relation) →
      ∃ joins', JoinsRearranged joins joins' ∧
        Avoids text (joinsSites joins aliases) (joinsSites joins' aliases)
  | [], aliases, h => ⟨[], .nil, by rw [joinsSites]; exact avoids_nil text _⟩
  | .mk relation operator :: joins, aliases, h => by
      rw [joinsSites, List.forall_mem_append, List.forall_mem_cons] at h
      obtain ⟨hinner, hfixed, hrest⟩ := h
      obtain ⟨relation', hrelation, hfirst⟩ := exists_avoiding_factor relation aliases hinner
      obtain ⟨operator', hoperator, hself⟩ :=
        exists_avoiding_site ⟨aliases, relation, operator⟩ hfixed hrelation
      obtain ⟨joins', hjoins, hothers⟩ := exists_avoiding_joins joins aliases hrest
      refine ⟨.mk relation' operator' :: joins', .cons hrelation hoperator hjoins, ?_⟩
      rw [joinsSites, joinsSites, List.append_cons,
        List.append_cons (factorSites relation' aliases)]
      exact (hfirst.append hself).append hothers

theorem exists_avoiding_factor : ∀ (factor : TableFactor Literal) (aliases : Aliases),
    (∀ site ∈ factorSites factor aliases, PivotFixed site.relation) →
      ∃ factor', FactorRearranged factor factor' ∧
        Avoids text (factorSites factor aliases) (factorSites factor' aliases)
  | .derived subquery label, aliases, h => by
      rw [factorSites] at h
      obtain ⟨subquery', hsubquery, havoids⟩ := exists_avoiding_query subquery h
      exact ⟨.derived subquery' label, .derived label hsubquery, by rwa [factorSites, factorSites]⟩
  | .nestedJoin inner label, aliases, h => by
      rw [factorSites] at h
      obtain ⟨inner', hinner, havoids⟩ := exists_avoiding_table inner aliases h
      exact ⟨.nestedJoin inner' label, .nestedJoin label hinner, by rwa [factorSites, factorSites]⟩
  | .pivot source label printed, aliases, h => by
      rw [factorSites] at h
      obtain ⟨source', hsource, havoids⟩ := exists_avoiding_factor source aliases h
      exact ⟨.pivot source' label printed, .pivot label hsource fun _ => rfl,
        by rwa [factorSites, factorSites]⟩
  | .table name label, aliases, h => ⟨_, .same _, by rw [factorSites]; exact avoids_nil text _⟩
  | .tableFunction value label, aliases, h =>
      ⟨_, .same _, by rw [factorSites]; exact avoids_nil text _⟩
  | .function name label, aliases, h => ⟨_, .same _, by rw [factorSites]; exact avoids_nil text _⟩
  | .unnest values label, aliases, h => ⟨_, .same _, by rw [factorSites]; exact avoids_nil text _⟩
  | .other printed, aliases, h => ⟨_, .same _, by rw [factorSites]; exact avoids_nil text _⟩

end

end Avoid

/-! ## The order is free exactly there -/

theorem label_length_le (relation : TableFactor Literal) (operator : JoinOperator Literal)
    (aliases : Aliases) :
    (tableFactorLabel relation aliases).length ≤
      (joinSignature relation operator aliases).length := by
  have hconstraint : ∀ (before : String) (constraint : JoinConstraint Literal),
      before.length ≤ (joinConstraintSignature before constraint aliases).length := by
    intro before constraint
    unfold joinConstraintSignature
    cases constraint <;> simp only [String.length_append] <;> omega
  unfold joinSignature
  cases operator with
  | constrained kind constraint =>
      refine le_trans ?_ (hconstraint _ constraint)
      simp only [String.length_append]
      omega
  | crossApply =>
      simp only [String.length_append]
      omega
  | outerApply =>
      simp only [String.length_append]
      omega
  | asOf matchCondition constraint =>
      refine le_trans ?_ (hconstraint _ constraint)
      simp only [String.length_append]
      omega

section Exact
variable {select : Select Literal}

/-- A rearranged pivot can be printed as a word that no join of the statement has. -/
theorem pivotFixed_of_unchanged
    (h : ∀ select', SelectRearranged select select' → ∀ text,
      text ∈ (selectSites select').map JoinSite.text ↔
        text ∈ (selectSites select).map JoinSite.text)
    {site : JoinSite} (hsite : site ∈ selectSites select) : PivotFixed site.relation := by
  intro source label printed hrelation source' hsource
  by_contra hne
  obtain ⟨n, hn, hlonger⟩ := PlainFragment.exists_word ((selectSites select).map JoinSite.text)
  have hpivot : FactorRearranged site.relation (.pivot source' label (PlainFragment.word n)) := by
    rw [hrelation]
    exact .pivot label hsource fun heq => absurd heq.symm hne
  have hprinted : SiteRearranged site
      ⟨site.aliases, .pivot source' label (PlainFragment.word n), site.operator⟩ :=
    ⟨rfl, hpivot, .same site.operator⟩
  obtain ⟨select', hselect, hmem⟩ := exists_replaced_select hprinted select hsite
  have hshort := hlonger _ ((h select' hselect _).mp (List.mem_map_of_mem hmem))
  have hlong : n ≤ (JoinSite.text
      ⟨site.aliases, .pivot source' label (PlainFragment.word n), site.operator⟩).length := by
    have hlabel := label_length_le (.pivot source' label (PlainFragment.word n)) site.operator
      site.aliases
    rw [tableFactorLabel, PlainFragment.normalizePrinted_word hn, String.length_ofList,
      List.length_replicate] at hlabel
    exact hlabel
  exact absurd hshort (Nat.not_lt.mpr hlong)

theorem orderFree_of_unchanged
    (h : ∀ select', SelectRearranged select select' → ∀ text,
      text ∈ (selectSites select').map JoinSite.text ↔
        text ∈ (selectSites select).map JoinSite.text) : OrderFree select := by
  have hpivots : ∀ site ∈ selectSites select, PivotFixed site.relation := fun site hsite =>
    pivotFixed_of_unchanged h hsite
  refine ⟨hpivots, fun site hsite operator hoperator => ?_⟩
  -- the text is there when this join is rearranged to it
  have hordered : SiteRearranged site (site.withOperator operator) :=
    ⟨rfl, .same site.relation, hoperator⟩
  obtain ⟨shown, hshown, hmem⟩ := exists_replaced_select hordered select hsite
  have htext := (h shown hshown _).mp (List.mem_map_of_mem hmem)
  -- so it is there when all joins avoid it
  obtain ⟨select', hselect, havoids⟩ := exists_avoiding_select select hpivots
  obtain ⟨site', hsite', heq⟩ := List.mem_map.mp ((h select' hselect _).mpr htext)
  exact havoids site' hsite' heq

end Exact

section Conjoin
variable {L : Type}

def conjoin : Expr L → List (Expr L) → Expr L
  | first, [] => first
  | first, second :: others => .and first (conjoin second others)

theorem conjoin_append (first second : Expr L) (before others : List (Expr L)) :
    SameConjuncts (conjoin first (before ++ second :: others))
      (.and (conjoin first before) (conjoin second others)) := by
  induction before generalizing first with
  | nil => exact .refl _
  | cons next before ih =>
      exact (SameConjuncts.and (.refl first) (ih next)).trans (.symm (.assoc ..))

theorem exists_conjoin (expr : Expr L) : ∃ first others,
    collectAndConjuncts expr = first :: others ∧ SameConjuncts expr (conjoin first others) := by
  induction expr with
  | and left right ihLeft ihRight =>
      obtain ⟨first, before, hleft, hsame⟩ := ihLeft
      obtain ⟨second, others, hright, hsame'⟩ := ihRight
      refine ⟨first, before ++ second :: others, ?_,
        (SameConjuncts.and hsame hsame').trans (.symm (conjoin_append ..))⟩
      rw [collectAndConjuncts, hleft, hright, List.cons_append]
  | nested inner ih =>
      obtain ⟨first, others, hinner, hsame⟩ := ih
      exact ⟨first, others, by rw [collectAndConjuncts, hinner],
        (SameConjuncts.nested inner).trans hsame⟩
  | other printed => exact ⟨.other printed, [], rfl, .refl _⟩

theorem collectAndConjuncts_leaf {expr leaf : Expr L} (h : leaf ∈ collectAndConjuncts expr) :
    collectAndConjuncts leaf = [leaf] := by
  induction expr with
  | and left right ihLeft ihRight =>
      rw [collectAndConjuncts] at h
      exact (List.mem_append.mp h).elim ihLeft ihRight
  | nested inner ih =>
      rw [collectAndConjuncts] at h
      exact ih h
  | other printed => rw [List.mem_singleton.mp h, collectAndConjuncts]

theorem conjoin_perm {first second : Expr L} {before others : List (Expr L)}
    (h : (first :: before).Perm (second :: others)) :
    SameConjuncts (conjoin first before) (conjoin second others) := by
  generalize hxs : first :: before = xs at h
  generalize hys : second :: others = ys at h
  induction h generalizing first before second others with
  | nil => cases hxs
  | @cons x xs ys hperm ih =>
      cases hxs
      cases hys
      cases xs with
      | nil =>
          rw [hperm.nil_eq]
          exact .refl _
      | cons next rest =>
          cases ys with
          | nil => exact absurd hperm.eq_nil (List.cons_ne_nil _ _)
          | cons next' rest' => exact .and (.refl _) (ih rfl rfl)
  | swap x y xs =>
      cases hxs
      cases hys
      cases xs with
      | nil => exact .comm _ _
      | cons next others =>
          exact (SameConjuncts.symm (.assoc ..)).trans
            ((SameConjuncts.and (.comm _ _) (.refl _)).trans (.assoc ..))
  | @trans xs ys zs hperm hperm' ih ih' =>
      cases ys with
      | nil => cases hxs.trans hperm.eq_nil
      | cons middle rest => exact (ih hxs rfl).trans (ih' rfl hys)

/-- Every order of the conjuncts is that of some rearrangement. -/
theorem exists_order {expr : Expr L} {order : List (Expr L)}
    (h : (collectAndConjuncts expr).Perm order) :
    ∃ expr', SameConjuncts expr expr' ∧ collectAndConjuncts expr' = order := by
  obtain ⟨first, before, hexpr, hsame⟩ := exists_conjoin expr
  cases order with
  | nil => cases hexpr.symm.trans h.eq_nil
  | cons second others =>
      rw [hexpr] at h
      refine ⟨conjoin second others, hsame.trans (conjoin_perm h), ?_⟩
      have hleaves : ∀ leaf ∈ second :: others, collectAndConjuncts leaf = [leaf] :=
        fun leaf hleaf => collectAndConjuncts_leaf (hexpr ▸ h.mem_iff.mpr hleaf)
      clear h
      induction others generalizing second with
      | nil => exact hleaves second (List.mem_singleton.mpr rfl)
      | cons next others ih =>
          rw [List.forall_mem_cons] at hleaves
          rw [conjoin, collectAndConjuncts, hleaves.1, ih next hleaves.2, List.singleton_append]

end Conjoin

/-- The texts read the same in both orders. -/
def Commutes (a b : String) : Prop := a ++ " and " ++ b = b ++ " and " ++ a

theorem intercalate_perm {xs ys : List String} (h : xs.Perm ys) (hcommutes : xs.Pairwise Commutes) :
    " and ".intercalate xs = " and ".intercalate ys := by
  have hsymm : ∀ {a b : String}, Commutes a b → Commutes b a := Eq.symm
  induction h with
  | nil => rfl
  | @cons x xs ys hperm ih =>
      have hrest := ih (List.pairwise_cons.mp hcommutes).2
      by_cases hnil : xs = []
      · rw [hnil] at hperm ⊢
        rw [hperm.nil_eq]
      · have hnil' : ys ≠ [] := fun heq => hnil ((heq ▸ hperm).eq_nil)
        rw [String.intercalate_cons_of_ne_nil hnil, String.intercalate_cons_of_ne_nil hnil', hrest]
  | swap x y xs =>
      have hpair : Commutes y x := (List.pairwise_cons.mp hcommutes).1 x List.mem_cons_self
      unfold Commutes at hpair
      by_cases hnil : xs = []
      · rw [hnil, String.intercalate_cons_cons, String.intercalate_cons_cons,
          String.intercalate_singleton, String.intercalate_singleton, hpair]
      · rw [String.intercalate_cons_cons, String.intercalate_cons_cons,
          String.intercalate_cons_of_ne_nil hnil, String.intercalate_cons_of_ne_nil hnil]
        simp only [← String.append_assoc]
        rw [hpair]
  | trans hperm hperm' ih ih' =>
      exact (ih hcommutes).trans (ih' (hperm.pairwise hcommutes hsymm))

theorem commutes_of_intercalate {a b : String} {rest : List String}
    (h : " and ".intercalate (a :: b :: rest) = " and ".intercalate (b :: a :: rest)) :
    Commutes a b := by
  unfold Commutes
  rw [String.intercalate_cons_cons, String.intercalate_cons_cons] at h
  by_cases hnil : rest = []
  · rw [hnil, String.intercalate_singleton, String.intercalate_singleton] at h
    exact h
  · rw [String.intercalate_cons_of_ne_nil hnil, String.intercalate_cons_of_ne_nil hnil] at h
    simp only [← String.append_assoc] at h
    exact (String.append_left_inj _).mp ((String.append_left_inj _).mp h)

/-- A join on conjuncts reads one way exactly when any two of them read the same in both
orders, as equal ones do. -/
theorem readsOneWay_iff (aliases : Aliases) (relation : TableFactor Literal) (kind : JoinKind)
    (condition : Expr Literal) :
    ReadsOneWay ⟨aliases, relation, .constrained kind (.on condition)⟩ ↔
      ((collectAndConjuncts condition).map (normalizeExpr · aliases)).Pairwise Commutes := by
  have htext : ∀ a b : Expr Literal,
      (JoinSite.text ⟨aliases, relation, .constrained kind (.on a)⟩ =
        JoinSite.text ⟨aliases, relation, .constrained kind (.on b)⟩) ↔
      " and ".intercalate ((collectAndConjuncts a).map (normalizeExpr · aliases)) =
        " and ".intercalate ((collectAndConjuncts b).map (normalizeExpr · aliases)) := by
    intro a b
    unfold JoinSite.text joinSignature
    simp only [joinConstraintSignature, joinExprs]
    exact String.append_right_inj _
  constructor
  · intro h
    rw [List.pairwise_map, List.pairwise_iff_forall_sublist]
    intro a b hsublist
    obtain ⟨rest, hperm⟩ := hsublist.exists_perm_append
    obtain ⟨expr, hexpr, horder⟩ := exists_order hperm
    obtain ⟨swapped, hswapped, hswap⟩ :=
      exists_order (hperm.trans (List.Perm.swap b a rest))
    have hfirst := h _ (.constrained kind (.on hexpr))
    have hsecond := h _ (.constrained kind (.on hswapped))
    have heq := (htext _ _).mp (hfirst.trans hsecond.symm)
    rw [horder, hswap] at heq
    exact commutes_of_intercalate heq
  · intro h operator hoperator
    cases hoperator with
    | same _ => rfl
    | constrained _ hconstraint =>
        cases hconstraint with
        | same _ => rfl
        | on hsame => exact ((htext _ _).mpr (intercalate_perm (hsame.perm.map _) h)).symm


/-! ## Two conjuncts of a join -/

/-- A join of two tables on the two conjuncts. -/
def joinedOn (first second : String) : Select Literal :=
  .mk [.mk (.table [.fixed "a"] none) [.mk (.table [.fixed "b"] none) (.constrained .join
    (.on (.and (.other [.fixed first]) (.other [.fixed second]))))]]
    [.wildcard] none none none none (.expressions [])

end DbtNova.ConjunctOrder
