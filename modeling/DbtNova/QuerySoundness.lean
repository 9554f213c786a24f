import DbtNova.Error
import DbtNova.PlainFragment
import DbtNova.SqlComparison

/-!
# What a match says of the whole query

The walk behind a signature reads the body of a query and the tables and joins of its
derived tables. It never enters WITH, the subqueries of expressions and of the clauses
behind the body, or the WHERE of a derived table. Between queries that have none of
these a match is sound. Around any query that has a signature it is not: a WITH leaves
no trace.
-/
namespace DbtNova.QuerySoundness
open PrintedSql SqlStructure SqlComparison PlainFragment

/-! ## Whole queries -/

mutual

/-- A query with its WITH and with the subqueries of the clauses behind its body. -/
inductive FullQuery where
  | mk (isRecursive : Bool) (ctes : List Cte) (body : SetExpr) (subqueries : List FullQuery)

inductive Cte where
  | mk (name : Printed Literal) (query : FullQuery)

/-- `other` is a set operation with its operands, or VALUES and the like. -/
inductive SetExpr where
  | select (body : FullSelect)
  | query (inner : FullQuery)
  | table (name : Printed Literal)
  | other (operands : List SetExpr)

/-- A SELECT with the subqueries of its expressions. -/
inductive FullSelect where
  | mk (tables : List FullTable) (projection : List (SelectItem Literal))
      (selection prewhere having qualify : Option (Expr Literal)) (groupBy : GroupByExpr Literal)
      (subqueries : List FullQuery)

inductive FullTable where
  | mk (relation : FullFactor) (joins : List FullJoin)

inductive FullJoin where
  | mk (relation : FullFactor) (operator : JoinOperator Literal)

/-- `other` is printed as a whole, with the tables in it. -/
inductive FullFactor where
  | table (name : Printed Literal) (label : Option (Printed Literal))
  | derived (subquery : FullQuery) (label : Option (Printed Literal))
  | tableFunction (value : Expr Literal) (label : Option (Printed Literal))
  | function (name : Printed Literal) (label : Option (Printed Literal))
  | unnest (values : List (Expr Literal)) (label : Option (Printed Literal))
  | nestedJoin (inner : FullTable) (label : Option (Printed Literal))
  | pivot (source : FullFactor) (label : Option (Printed Literal)) (printed : Printed Literal)
  | other (printed : Printed Literal) (sources : List FullFactor)

end

/-! ## What the walk reads -/

mutual

def FullQuery.erase : FullQuery → Query Literal
  | .mk _ _ body _ => body.erase

def SetExpr.erase : SetExpr → Query Literal
  | .select body => .select body.erase
  | .query inner => .query inner.erase
  | .table _ | .other _ => .other

def FullSelect.erase : FullSelect → Select Literal
  | .mk tables projection selection prewhere having qualify groupBy _ =>
      .mk (eraseTables tables) projection selection prewhere having qualify groupBy

def eraseTables : List FullTable → List (TableWithJoins Literal)
  | [] => []
  | table :: tables => table.erase :: eraseTables tables

def FullTable.erase : FullTable → TableWithJoins Literal
  | .mk relation joins => .mk relation.erase (eraseJoins joins)

def eraseJoins : List FullJoin → List (Join Literal)
  | [] => []
  | .mk relation operator :: joins => .mk relation.erase operator :: eraseJoins joins

def FullFactor.erase : FullFactor → TableFactor Literal
  | .table name label => .table name label
  | .derived subquery label => .derived subquery.erase label
  | .tableFunction value label => .tableFunction value label
  | .function name label => .function name label
  | .unnest values label => .unnest values label
  | .nestedJoin inner label => .nestedJoin inner.erase label
  | .pivot source label printed => .pivot source.erase label printed
  | .other printed _ => .other printed

end

def Matches (actual expected : FullQuery) : Prop :=
  ∃ comparison, compareSqlStructure actual.erase expected.erase = .ok comparison ∧
    comparison.isMatch = true

/-! ## The base tables of a query -/

def cteNames : List Cte → List String
  | [] => []
  | .mk name _ :: ctes => normalizeIdentifier name :: cteNames ctes

/-- A name that a WITH around it defines is no base table. -/
def baseTable (bound : List String) (name : Printed Literal) : List String :=
  if normalizeRelationName name ∈ bound then [] else [normalizeRelationName name]

mutual

/-- A WITH defines its names for what follows, and a recursive one for its own queries. -/
def queryTables (bound : List String) : FullQuery → List String
  | .mk isRecursive ctes body subqueries =>
      ctesTables (if isRecursive then cteNames ctes ++ bound else bound) ctes ++
        setTables (cteNames ctes ++ bound) body ++
        queriesTables (cteNames ctes ++ bound) subqueries

def queriesTables (bound : List String) : List FullQuery → List String
  | [] => []
  | query :: queries => queryTables bound query ++ queriesTables bound queries

def ctesTables (bound : List String) : List Cte → List String
  | [] => []
  | .mk name query :: ctes =>
      queryTables bound query ++ ctesTables (normalizeIdentifier name :: bound) ctes

def setTables (bound : List String) : SetExpr → List String
  | .select body => selectTables bound body
  | .query inner => queryTables bound inner
  | .table name => baseTable bound name
  | .other operands => setsTables bound operands

def setsTables (bound : List String) : List SetExpr → List String
  | [] => []
  | operand :: operands => setTables bound operand ++ setsTables bound operands

def selectTables (bound : List String) : FullSelect → List String
  | .mk tables _ _ _ _ _ _ subqueries => fromTables bound tables ++ queriesTables bound subqueries

def fromTables (bound : List String) : List FullTable → List String
  | [] => []
  | table :: tables => tableTables bound table ++ fromTables bound tables

def tableTables (bound : List String) : FullTable → List String
  | .mk relation joins => factorTables bound relation ++ joinsTables bound joins

def joinsTables (bound : List String) : List FullJoin → List String
  | [] => []
  | .mk relation _ :: joins => factorTables bound relation ++ joinsTables bound joins

def factorTables (bound : List String) : FullFactor → List String
  | .table name _ => baseTable bound name
  | .derived subquery _ => queryTables bound subquery
  | .nestedJoin inner _ => tableTables bound inner
  | .pivot source _ _ => factorTables bound source
  | .other _ sources => factorsTables bound sources
  | .tableFunction _ _ | .function _ _ | .unnest _ _ => []

def factorsTables (bound : List String) : List FullFactor → List String
  | [] => []
  | factor :: factors => factorTables bound factor ++ factorsTables bound factors

end

def SameTables (a b : FullQuery) : Prop := ∀ x, x ∈ queryTables [] a ↔ x ∈ queryTables [] b

/-! ## The filters of derived tables and of WITH -/

inductive Place where
  | cte (name : String)
  | derived (label : Option String)
  deriving DecidableEq, Repr

/-- The WHERE of a query as a list of conjuncts. -/
def whereConjuncts : Query Literal → List String
  | .select (.mk tables _ selection _ _ _ _) => selection.toList.flatMap fun expr =>
      (collectAndConjuncts expr).map fun conjunct =>
        normalizeExpr conjunct (qualifierAliases tables)
  | .query inner => whereConjuncts inner
  | .other => []

mutual

/-- Each derived table and each query of a WITH, by the names around it, with its WHERE. -/
def queryFilters (path : List Place) : FullQuery → List (List Place × List String)
  | .mk _ ctes body _ => ctesFilters path ctes ++ setFilters path body

def ctesFilters (path : List Place) : List Cte → List (List Place × List String)
  | [] => []
  | .mk name query :: ctes =>
      (path ++ [.cte (normalizeIdentifier name)], whereConjuncts query.erase) ::
        (queryFilters (path ++ [.cte (normalizeIdentifier name)]) query ++ ctesFilters path ctes)

def setFilters (path : List Place) : SetExpr → List (List Place × List String)
  | .select body => selectFilters path body
  | .query inner => queryFilters path inner
  | .table _ => []
  | .other operands => setsFilters path operands

def setsFilters (path : List Place) : List SetExpr → List (List Place × List String)
  | [] => []
  | operand :: operands => setFilters path operand ++ setsFilters path operands

def selectFilters (path : List Place) : FullSelect → List (List Place × List String)
  | .mk tables _ _ _ _ _ _ _ => fromFilters path tables

def fromFilters (path : List Place) : List FullTable → List (List Place × List String)
  | [] => []
  | table :: tables => tableFilters path table ++ fromFilters path tables

def tableFilters (path : List Place) : FullTable → List (List Place × List String)
  | .mk relation joins => factorFilters path relation ++ joinsFilters path joins

def joinsFilters (path : List Place) : List FullJoin → List (List Place × List String)
  | [] => []
  | .mk relation _ :: joins => factorFilters path relation ++ joinsFilters path joins

def factorFilters (path : List Place) : FullFactor → List (List Place × List String)
  | .derived subquery label =>
      (path ++ [.derived (label.map normalizeIdentifier)], whereConjuncts subquery.erase) ::
        queryFilters (path ++ [.derived (label.map normalizeIdentifier)]) subquery
  | .nestedJoin inner _ => tableFilters path inner
  | .pivot source _ _ => factorFilters path source
  | .other _ sources => factorsFilters path sources
  | .table _ _ | .tableFunction _ _ | .function _ _ | .unnest _ _ => []

def factorsFilters (path : List Place) : List FullFactor → List (List Place × List String)
  | [] => []
  | factor :: factors => factorFilters path factor ++ factorsFilters path factors

end

def filtersAt (query : FullQuery) (path : List Place) : List (List String) :=
  ((queryFilters [] query).filter fun entry => entry.1 = path).map Prod.snd

/-- Parts under the same names correspond in the order in which they stand. -/
def SameFilters (a b : FullQuery) : Prop :=
  ∀ (path : List Place) (i : ℕ) (conjuncts conjuncts' : List String),
    (filtersAt a path)[i]? = some conjuncts → (filtersAt b path)[i]? = some conjuncts' →
      ∀ x, x ∈ conjuncts ↔ x ∈ conjuncts'

/-! ## Queries that the walk reads in full -/

mutual

/-- No WITH, no subquery in an expression, no WHERE in a derived table; the sources are
tables. -/
def queryPlain : FullQuery → Bool
  | .mk _ ctes body subqueries => ctes.isEmpty && subqueries.isEmpty && setPlain body

def setPlain : SetExpr → Bool
  | .select body => selectPlain body
  | .query inner => queryPlain inner
  | .table _ | .other _ => false

def selectPlain : FullSelect → Bool
  | .mk tables _ _ _ _ _ _ subqueries => subqueries.isEmpty && fromPlain tables

def fromPlain : List FullTable → Bool
  | [] => true
  | table :: tables => tablePlain table && fromPlain tables

def tablePlain : FullTable → Bool
  | .mk relation joins => factorPlain relation && joinsPlain joins

def joinsPlain : List FullJoin → Bool
  | [] => true
  | .mk relation _ :: joins => factorPlain relation && joinsPlain joins

def factorPlain : FullFactor → Bool
  | .table _ _ => true
  | .derived subquery _ => queryPlain subquery && (whereConjuncts subquery.erase).isEmpty
  | .nestedJoin inner _ => tablePlain inner
  | .pivot source _ _ => factorPlain source
  | .tableFunction _ _ | .function _ _ | .unnest _ _ | .other _ _ => false

end

/-- The walk found these tables, in some order. -/
def ReadsTables (refs : TableRefs) (tables : List String) : Prop :=
  ∀ x, x ∈ refs.tables ↔ x ∈ tables

theorem ReadsTables.append {a b : TableRefs} {tables others : List String}
    (ha : ReadsTables a tables) (hb : ReadsTables b others) :
    ReadsTables (a.append b) (tables ++ others) := by
  intro x
  have happend : (a.append b).tables = a.tables ++ b.tables := rfl
  rw [happend, List.mem_append, ha, hb, List.mem_append]

mutual

theorem queryTables_read : ∀ (query : FullQuery) {signature : SqlStructureSignature},
    queryPlain query = true → signatureForQuery query.erase = .ok signature →
      ReadsTables signature.refs (queryTables [] query)
  | .mk isRecursive ctes body subqueries, signature, hplain, h => by
      rw [queryPlain, Bool.and_eq_true, Bool.and_eq_true, List.isEmpty_iff, List.isEmpty_iff]
        at hplain
      obtain ⟨⟨rfl, rfl⟩, hbody⟩ := hplain
      rw [FullQuery.erase] at h
      rw [queryTables, ctesTables, queriesTables, List.nil_append, List.append_nil]
      exact setTables_read body hbody h

theorem setTables_read : ∀ (body : SetExpr) {signature : SqlStructureSignature},
    setPlain body = true → signatureForQuery body.erase = .ok signature →
      ReadsTables signature.refs (setTables [] body)
  | .select body, signature, hplain, h => by
      rw [setPlain] at hplain
      rw [SetExpr.erase, signatureForQuery] at h
      rw [setTables]
      exact selectTables_read body hplain h
  | .query inner, signature, hplain, h => by
      rw [setPlain] at hplain
      rw [SetExpr.erase, signatureForQuery] at h
      rw [setTables]
      exact queryTables_read inner hplain h
  | .table name, signature, hplain, h => by
      rw [setPlain] at hplain
      cases hplain
  | .other operands, signature, hplain, h => by
      rw [setPlain] at hplain
      cases hplain

theorem selectTables_read : ∀ (body : FullSelect) {signature : SqlStructureSignature},
    selectPlain body = true → signatureForSelect body.erase = .ok signature →
      ReadsTables signature.refs (selectTables [] body)
  | .mk tables projection selection prewhere having qualify groupBy subqueries, signature, hplain,
      h => by
      rw [selectPlain, Bool.and_eq_true, List.isEmpty_iff] at hplain
      obtain ⟨rfl, htables⟩ := hplain
      rw [FullSelect.erase, signatureForSelect] at h
      obtain ⟨refs, hrefs, h⟩ := bind_eq_ok.mp h
      have hread := fromTables_read tables htables hrefs
      rw [← Except.ok.inj h, selectTables, queriesTables, List.append_nil]
      exact fun x => mem_sortedSet.trans (hread x)

theorem fromTables_read : ∀ (tables : List FullTable) {aliases : Aliases} {refs : TableRefs},
    fromPlain tables = true → collectTables (eraseTables tables) aliases = .ok refs →
      ReadsTables refs (fromTables [] tables)
  | [], aliases, refs, hplain, h => by
      rw [eraseTables, collectTables] at h
      rw [← Except.ok.inj h, fromTables]
      exact fun _ => Iff.rfl
  | table :: tables, aliases, refs, hplain, h => by
      rw [fromPlain, Bool.and_eq_true] at hplain
      rw [eraseTables, collectTables] at h
      obtain ⟨first, hfirst, h⟩ := bind_eq_ok.mp h
      obtain ⟨others, hothers, h⟩ := bind_eq_ok.mp h
      rw [← Except.ok.inj h, fromTables]
      exact (tableTables_read table hplain.1 hfirst).append
        (fromTables_read tables hplain.2 hothers)

theorem tableTables_read : ∀ (table : FullTable) {aliases : Aliases} {refs : TableRefs},
    tablePlain table = true → collectTableWithJoins table.erase aliases = .ok refs →
      ReadsTables refs (tableTables [] table)
  | .mk relation joins, aliases, refs, hplain, h => by
      rw [tablePlain, Bool.and_eq_true] at hplain
      rw [FullTable.erase, collectTableWithJoins] at h
      obtain ⟨first, hfirst, h⟩ := bind_eq_ok.mp h
      obtain ⟨others, hothers, h⟩ := bind_eq_ok.mp h
      rw [← Except.ok.inj h, tableTables]
      exact (factorTables_read relation hplain.1 hfirst).append
        (joinsTables_read joins hplain.2 hothers)

theorem joinsTables_read : ∀ (joins : List FullJoin) {aliases : Aliases} {refs : TableRefs},
    joinsPlain joins = true → collectJoins (eraseJoins joins) aliases = .ok refs →
      ReadsTables refs (joinsTables [] joins)
  | [], aliases, refs, hplain, h => by
      rw [eraseJoins, collectJoins] at h
      rw [← Except.ok.inj h, joinsTables]
      exact fun _ => Iff.rfl
  | .mk relation operator :: joins, aliases, refs, hplain, h => by
      rw [joinsPlain, Bool.and_eq_true] at hplain
      rw [eraseJoins, collectJoins] at h
      obtain ⟨first, hfirst, h⟩ := bind_eq_ok.mp h
      obtain ⟨others, hothers, h⟩ := bind_eq_ok.mp h
      have hself : ReadsTables ⟨[], [joinSignature relation.erase operator aliases]⟩ [] :=
        fun _ => Iff.rfl
      have hfactor := (factorTables_read relation hplain.1 hfirst).append hself
      rw [List.append_nil] at hfactor
      rw [← Except.ok.inj h, joinsTables]
      exact hfactor.append (joinsTables_read joins hplain.2 hothers)

theorem factorTables_read : ∀ (factor : FullFactor) {aliases : Aliases} {refs : TableRefs},
    factorPlain factor = true → collectTableFactorRefs factor.erase aliases = .ok refs →
      ReadsTables refs (factorTables [] factor)
  | .table name label, aliases, refs, hplain, h => by
      rw [FullFactor.erase, collectTableFactorRefs] at h
      rw [← Except.ok.inj h, factorTables, baseTable, if_neg List.not_mem_nil]
      exact fun _ => Iff.rfl
  | .derived subquery label, aliases, refs, hplain, h => by
      rw [factorPlain, Bool.and_eq_true] at hplain
      rw [FullFactor.erase, collectTableFactorRefs] at h
      obtain ⟨signature, hsignature, h⟩ := bind_eq_ok.mp h
      rw [← Except.ok.inj h, factorTables]
      exact queryTables_read subquery hplain.1 hsignature
  | .nestedJoin inner label, aliases, refs, hplain, h => by
      rw [factorPlain] at hplain
      rw [FullFactor.erase, collectTableFactorRefs] at h
      rw [factorTables]
      exact tableTables_read inner hplain h
  | .pivot source label printed, aliases, refs, hplain, h => by
      rw [factorPlain] at hplain
      rw [FullFactor.erase, collectTableFactorRefs] at h
      rw [factorTables]
      exact factorTables_read source hplain h
  | .tableFunction _ _, _, _, hplain, _ | .function _ _, _, _, hplain, _
  | .unnest _ _, _, _, hplain, _ | .other _ _, _, _, hplain, _ => by
      rw [factorPlain] at hplain
      cases hplain

end

/-- None of these parts has a WHERE. -/
def NoFilters (filters : List (List Place × List String)) : Prop :=
  ∀ entry ∈ filters, entry.2 = []

theorem noFilters_nil : NoFilters [] := fun _ h => absurd h List.not_mem_nil

theorem NoFilters.append {filters others : List (List Place × List String)}
    (h : NoFilters filters) (hothers : NoFilters others) : NoFilters (filters ++ others) :=
  List.forall_mem_append.mpr ⟨h, hothers⟩

mutual

theorem queryFilters_plain : ∀ (query : FullQuery) (path : List Place), queryPlain query = true →
    NoFilters (queryFilters path query)
  | .mk isRecursive ctes body subqueries, path, h => by
      rw [queryPlain, Bool.and_eq_true, Bool.and_eq_true, List.isEmpty_iff] at h
      obtain ⟨⟨rfl, -⟩, hbody⟩ := h
      rw [queryFilters, ctesFilters, List.nil_append]
      exact setFilters_plain body path hbody

theorem setFilters_plain : ∀ (body : SetExpr) (path : List Place), setPlain body = true →
    NoFilters (setFilters path body)
  | .select body, path, h => by
      rw [setPlain] at h
      rw [setFilters]
      exact selectFilters_plain body path h
  | .query inner, path, h => by
      rw [setPlain] at h
      rw [setFilters]
      exact queryFilters_plain inner path h
  | .table name, path, h => by
      rw [setFilters]
      exact noFilters_nil
  | .other operands, path, h => by
      rw [setPlain] at h
      cases h

theorem selectFilters_plain : ∀ (body : FullSelect) (path : List Place), selectPlain body = true →
    NoFilters (selectFilters path body)
  | .mk tables projection selection prewhere having qualify groupBy subqueries, path, h => by
      rw [selectPlain, Bool.and_eq_true] at h
      rw [selectFilters]
      exact fromFilters_plain tables path h.2

theorem fromFilters_plain : ∀ (tables : List FullTable) (path : List Place),
    fromPlain tables = true → NoFilters (fromFilters path tables)
  | [], path, h => by
      rw [fromFilters]
      exact noFilters_nil
  | table :: tables, path, h => by
      rw [fromPlain, Bool.and_eq_true] at h
      rw [fromFilters]
      exact (tableFilters_plain table path h.1).append (fromFilters_plain tables path h.2)

theorem tableFilters_plain : ∀ (table : FullTable) (path : List Place), tablePlain table = true →
    NoFilters (tableFilters path table)
  | .mk relation joins, path, h => by
      rw [tablePlain, Bool.and_eq_true] at h
      rw [tableFilters]
      exact (factorFilters_plain relation path h.1).append (joinsFilters_plain joins path h.2)

theorem joinsFilters_plain : ∀ (joins : List FullJoin) (path : List Place),
    joinsPlain joins = true → NoFilters (joinsFilters path joins)
  | [], path, h => by
      rw [joinsFilters]
      exact noFilters_nil
  | .mk relation operator :: joins, path, h => by
      rw [joinsPlain, Bool.and_eq_true] at h
      rw [joinsFilters]
      exact (factorFilters_plain relation path h.1).append (joinsFilters_plain joins path h.2)

theorem factorFilters_plain : ∀ (factor : FullFactor) (path : List Place),
    factorPlain factor = true → NoFilters (factorFilters path factor)
  | .derived subquery label, path, h => by
      rw [factorPlain, Bool.and_eq_true, List.isEmpty_iff] at h
      rw [factorFilters]
      exact List.forall_mem_cons.mpr ⟨h.2, queryFilters_plain subquery _ h.1⟩
  | .nestedJoin inner label, path, h => by
      rw [factorPlain] at h
      rw [factorFilters]
      exact tableFilters_plain inner path h
  | .pivot source label printed, path, h => by
      rw [factorPlain] at h
      rw [factorFilters]
      exact factorFilters_plain source path h
  | .other printed sources, path, h => by
      rw [factorPlain] at h
      cases h
  | .table _ _, path, h | .tableFunction _ _, path, h | .function _ _, path, h
  | .unnest _ _, path, h => by
      rw [factorFilters]
      exact noFilters_nil

end

section Match
variable {actual expected : FullQuery}

theorem matches_iff : Matches actual expected ↔ ∃ signature signature',
    signatureForQuery actual.erase = .ok signature ∧
      signatureForQuery expected.erase = .ok signature' ∧ SameEntries signature signature' := by
  constructor
  · rintro ⟨comparison, h, hmatch⟩
    obtain ⟨signature, hsignature, h⟩ := bind_eq_ok.mp h
    obtain ⟨signature', hsignature', h⟩ := bind_eq_ok.mp h
    rw [← Except.ok.inj h, isMatch_iff] at hmatch
    exact ⟨signature, signature', hsignature, hsignature', hmatch⟩
  · rintro ⟨signature, signature', hsignature, hsignature', hsame⟩
    exact ⟨_, bind_eq_ok.mpr ⟨signature, hsignature, bind_eq_ok.mpr ⟨signature', hsignature', rfl⟩⟩,
      (isMatch_iff ..).mpr hsame⟩

/-- Between queries that the walk reads in full a match is sound. -/
theorem sound_of_plain (hactual : queryPlain actual = true) (hexpected : queryPlain expected = true)
    (h : Matches actual expected) : SameTables actual expected ∧ SameFilters actual expected := by
  obtain ⟨signature, signature', hsignature, hsignature', htables, -⟩ := matches_iff.mp h
  constructor
  · intro x
    rw [← queryTables_read actual hactual hsignature x,
      ← queryTables_read expected hexpected hsignature' x]
    exact htables x
  · intro path i conjuncts conjuncts' hi hi'
    have hnone : ∀ query : FullQuery, queryPlain query = true → ∀ conjuncts,
        (filtersAt query path)[i]? = some conjuncts → conjuncts = [] := by
      intro query hplain conjuncts hget
      obtain ⟨entry, hentry, rfl⟩ := List.mem_map.mp (List.mem_of_getElem? hget)
      exact queryFilters_plain query [] hplain entry (List.mem_of_mem_filter hentry)
    rw [hnone actual hactual conjuncts hi, hnone expected hexpected conjuncts' hi']
    exact fun _ => Iff.rfl

end Match

/-! ## A WITH leaves no trace -/

/-- The query with one more query in its WITH. -/
def FullQuery.withCte : FullQuery → Cte → FullQuery
  | .mk isRecursive ctes body subqueries, cte => .mk isRecursive (cte :: ctes) body subqueries

/-- SELECT country FROM a table. -/
def scanTable (name : Printed Literal) (selection : Option (Expr Literal)) : FullQuery :=
  .mk false [] (.select (.mk [.mk (.table name none) []] [.expr (.other [.fixed "country"])]
    selection none none none (.expressions []) [])) []

section Trace
variable (query : FullQuery)

theorem withCte_erase (cte : Cte) : (query.withCte cte).erase = query.erase := by
  cases query with
  | mk isRecursive ctes body subqueries =>
      rw [FullQuery.withCte, FullQuery.erase, FullQuery.erase]

theorem withCte_matches (h : queryGradable query.erase = true) (cte : Cte) :
    Matches query (query.withCte cte) := by
  obtain ⟨signature, hsignature⟩ := (signatureForQuery_ok query.erase).mpr h
  refine matches_iff.mpr ⟨signature, signature, hsignature, ?_, ?_⟩
  · rw [withCte_erase, hsignature]
  · exact ⟨fun _ => Iff.rfl, fun _ => Iff.rfl, fun _ => Iff.rfl, fun _ => Iff.rfl,
      fun _ => Iff.rfl⟩

theorem gradable_of_matches {other : FullQuery} (h : Matches query other) :
    queryGradable query.erase = true := by
  obtain ⟨signature, _, hsignature, -⟩ := matches_iff.mp h
  exact (signatureForQuery_ok query.erase).mp ⟨signature, hsignature⟩

theorem scanTable_tables (bound : List String) (name : Printed Literal)
    (selection : Option (Expr Literal)) :
    queryTables bound (scanTable name selection) = baseTable bound name := by
  rw [scanTable, queryTables, ctesTables, queriesTables, setTables, selectTables, fromTables,
    fromTables, tableTables, joinsTables, factorTables, queriesTables, cteNames]
  simp only [List.nil_append, List.append_nil]

/-- A table that the query does not have yet can stand in its WITH. -/
theorem exists_hidden_table : ∃ cte, ¬ SameTables query (query.withCte cte) := by
  cases query with
  | mk isRecursive ctes body subqueries =>
      obtain ⟨n, hn, hlonger⟩ := exists_word
        (queryTables [] (.mk isRecursive ctes body subqueries) ++ cteNames ctes)
      refine ⟨.mk (word (n + 1)) (scanTable (word n) none), fun hsame => ?_⟩
      have hword : ∀ m, 0 < m → normalizePrinted (word m) [] =
          String.ofList (List.replicate m 'a') := fun m hm =>
        normalizePrinted_word hm []
      have hlength : ∀ m, (String.ofList (List.replicate m 'a')).length = m := fun m => by
        rw [String.length_ofList, List.length_replicate]
      generalize htable : String.ofList (List.replicate n 'a') = table at *
      have hnot : table ∉ queryTables [] (.mk isRecursive ctes body subqueries) := fun hmem => by
        have hlt := hlonger table (List.mem_append_left _ hmem)
        rw [← htable, hlength] at hlt
        exact Nat.lt_irrefl n hlt
      apply hnot
      rw [hsame, FullQuery.withCte, queryTables, ctesTables, scanTable_tables, baseTable,
        normalizeRelationName, hword n hn, htable, if_neg]
      · exact List.mem_append_left _ (List.mem_append_left _
          (List.mem_append_left _ (List.mem_singleton.mpr rfl)))
      · -- the name of the new query is longer, and the others are shorter
        intro hmem
        have hnames : table ∈ cteNames (.mk (word (n + 1)) (scanTable (word n) none) :: ctes) := by
          cases isRecursive with
          | false => exact absurd hmem List.not_mem_nil
          | true => rwa [if_pos rfl, List.append_nil] at hmem
        rw [cteNames, normalizeIdentifier, hword (n + 1) (Nat.succ_pos n)] at hnames
        have hshort : table.length = n := by rw [← htable, hlength]
        cases List.mem_cons.mp hnames with
        | inl heq =>
            rw [heq, hlength] at hshort
            omega
        | inr hother =>
            have hlt := hlonger table (List.mem_append_right _ hother)
            omega

/-- Whatever its WHERE, a query in WITH is compared with nothing. -/
theorem exists_hidden_filter : ∃ cte cte',
    SameTables (query.withCte cte) (query.withCte cte') ∧
      ¬ SameFilters (query.withCte cte) (query.withCte cte') := by
  cases query with
  | mk isRecursive ctes body subqueries =>
      refine ⟨.mk (word 1) (scanTable (word 2) none),
        .mk (word 1) (scanTable (word 2) (some (.other (word 3)))),
        fun x => ?_, fun hsame => ?_⟩
      · simp only [FullQuery.withCte, queryTables, ctesTables, scanTable_tables, cteNames]
      · have hfirst : ∀ selection, (filtersAt (FullQuery.withCte
            (.mk isRecursive ctes body subqueries)
            (.mk (word 1) (scanTable (word 2) selection)))
              [.cte (normalizeIdentifier (word 1))])[0]? =
            some (whereConjuncts (scanTable (word 2) selection).erase) := by
          intro selection
          unfold filtersAt
          rw [FullQuery.withCte, queryFilters, ctesFilters, List.nil_append, List.cons_append,
            List.filter_cons, if_pos (decide_eq_true rfl)]
          rfl
        have hempty := (hsame _ 0 _ _ (hfirst none) (hfirst (some _))
          (normalizeExpr (.other (word 3)) (qualifierAliases
            [.mk (.table (word 2) none) []]))).mpr (List.mem_singleton.mpr rfl)
        exact absurd hempty List.not_mem_nil

end Trace

/-- Queries that the walk reads in full are compared soundly. No query that has a signature
is compared soundly with all others, in its tables or in the filters of its parts. -/
theorem match_sound_iff (query : FullQuery) :
    (∀ expected, queryPlain query = true → queryPlain expected = true →
      Matches query expected → SameTables query expected ∧ SameFilters query expected) ∧
    ((∀ other, Matches query other → SameTables query other) ↔
      queryGradable query.erase = false) ∧
    ((∀ other other', Matches query other → Matches query other' → SameTables other other' →
      SameFilters other other') ↔ queryGradable query.erase = false) := by
  refine ⟨fun expected => sound_of_plain, ⟨fun h => ?_, fun h => ?_⟩, ⟨fun h => ?_, fun h => ?_⟩⟩
  · by_contra hgradable
    rw [Bool.not_eq_false] at hgradable
    obtain ⟨cte, hdiffers⟩ := exists_hidden_table query
    exact hdiffers (h _ (withCte_matches query hgradable cte))
  · intro other hmatches
    rw [gradable_of_matches query hmatches] at h
    cases h
  · by_contra hgradable
    rw [Bool.not_eq_false] at hgradable
    obtain ⟨cte, cte', htables, hdiffers⟩ := exists_hidden_filter query
    exact hdiffers (h _ _ (withCte_matches query hgradable cte)
      (withCte_matches query hgradable cte') htables)
  · intro other other' hmatches
    rw [gradable_of_matches query hmatches] at h
    cases h

/-! ## A filter of a derived table -/

/-- A derived table over sales, with or without a WHERE, under a WITH that reads another
table. -/
def salesQuery (hidden : String) (selection : Option (Expr Literal)) : FullQuery :=
  .mk false [.mk [.fixed "c"] (scanTable [.fixed hidden] none)]
    (.select (.mk [.mk (.derived (scanTable [.fixed "sales"] selection) (some [.fixed "o"])) []]
      [.expr (.other [.fixed "country"])] none none none none (.expressions []) [])) []

theorem salesQuery_matches :
    (compareSqlStructure (salesQuery "staff" none).erase
        (salesQuery "payroll" (some (.other [.fixed "country = 'US'"]))).erase).map (·.isMatch) =
      .ok true ∧
    ¬ SameTables (salesQuery "staff" none)
      (salesQuery "payroll" (some (.other [.fixed "country = 'US'"]))) ∧
    ¬ SameFilters (salesQuery "staff" none)
      (salesQuery "payroll" (some (.other [.fixed "country = 'US'"]))) := by
  refine ⟨by decide, fun h => ?_, fun h => ?_⟩
  · exact absurd ((h "staff").mp (by decide)) (by decide)
  · have hwhere := h [.derived (some "o")] 0 [] ["country = ?"] (by decide)
      (by decide) "country = ?"
    exact absurd (hwhere.mpr (List.mem_singleton.mpr rfl)) List.not_mem_nil

end DbtNova.QuerySoundness
