import DbtNova.Error
import DbtNova.Text
import DbtNova.SqlAst

/-!
# The read-only gate in front of every SQL provider

`validateSqlStatementForProvider` parses one statement and inspects its tree.
The read-only walk follows WITH, set operations and parenthesised bodies; the
DuckDB walk follows the parser's visitor and reaches every expression and FROM
item. The parser is a parameter: every result holds for any parser.
-/
namespace DbtNova.SqlGate
open SqlAst Text

inductive Dialect where
  | snowflake
  | generic
  deriving DecidableEq, Repr

/-- What the gate uses of the parser crate. -/
abbrev ParseSql := Dialect → String → Except String (List Statement)

def duckdbExternalAccessFunctions : List String :=
  ["csv_scan", "delta_scan", "glob", "iceberg_scan", "parquet_scan", "read_blob", "read_csv",
    "read_csv_auto", "read_file", "read_json", "read_json_auto", "read_json_objects",
    "read_json_objects_auto", "read_ndjson", "read_ndjson_auto", "read_ndjson_objects",
    "read_ndjson_objects_auto", "read_parquet", "read_text"]

mutual

def validateQueryBodyIsReadOnly : Query → Result Unit
  | .mk ctes body _ _ => do
      validateCteTables ctes
      validateSetExprIsReadOnly body

/-- The loop over `with.cte_tables`. -/
def validateCteTables : List Cte → Result Unit
  | [] => pure ()
  | .mk _ query :: ctes => do
      validateQueryBodyIsReadOnly query
      validateCteTables ctes

def validateSetExprIsReadOnly : SetExpr → Result Unit
  | .select s =>
      if s.into.isSome then
        throw (.invalidParams "SELECT INTO statements are not allowed")
      else pure ()
  | .query q => validateQueryBodyIsReadOnly q
  | .setOperation l r => do
      validateSetExprIsReadOnly l
      validateSetExprIsReadOnly r
  | .values _ | .table _ => pure ()
  | .insert _ | .update _ | .delete _ | .merge _ =>
      throw (.invalidParams "Only read-only SELECT queries are allowed")

end

/-- The last identifier of a dotted name decides; function parts are skipped. -/
def blockedDuckdbExternalFunction (name : ObjectName) : Option String := do
  let leaf ← name.reverse.findSome? ObjectNamePart.asIdent
  duckdbExternalAccessFunctions.find? (fun blocked => eqIgnoreAsciiCase leaf blocked)

def duckdbExternalAccessMessage (functionName : String) : String :=
  "DuckDB external file access function '" ++ functionName ++
    "' is not allowed in execute_sql"

def Expr.blocked : Expr → Option String
  | .function name _ | .functionSubquery name _ => blockedDuckdbExternalFunction name
  | _ => none

/-- `pre_visit_expr` and `pre_visit_table_factor` of the DuckDB visitor. -/
def preVisit : Node → Option String
  | .expr e => (Expr.blocked e).map duckdbExternalAccessMessage
  | .tableFactor (.table name true _) | .tableFactor (.function _ name _) =>
      (blockedDuckdbExternalFunction name).map duckdbExternalAccessMessage
  | .tableFactor (.tableFunction e) => (Expr.blocked e).map duckdbExternalAccessMessage
  | _ => none

def validateNoDuckdbExternalAccess (statement : Statement) : Result Unit :=
  match statement.nodes.findSome? preVisit with
  | none => pure ()
  | some message => throw (.invalidParams message)

def denyDuckdbExternalAccess (provider : String) : Bool :=
  eqIgnoreAsciiCase provider "duckdb" || eqIgnoreAsciiCase provider "generic"

/-- The body of the loop over the parsed statements. -/
def validateStatement (deny : Bool) : Statement → Result Unit
  | .query q => do
      validateQueryBodyIsReadOnly q
      if deny then validateNoDuckdbExternalAccess (.query q)
  | .explain (.query q) => do
      validateQueryBodyIsReadOnly q
      if deny then validateNoDuckdbExternalAccess (.query q)
  | .explain _ => throw (.invalidParams "Only EXPLAIN SELECT statements are allowed")
  | .drop => throw (.invalidParams "DROP statements are not allowed")
  | .delete _ => throw (.invalidParams "DELETE statements are not allowed")
  | .truncate => throw (.invalidParams "TRUNCATE statements are not allowed")
  | .insert _ => throw (.invalidParams "INSERT statements are not allowed")
  | .update _ => throw (.invalidParams "UPDATE statements are not allowed")
  | .createTable | .createView =>
      throw (.invalidParams "CREATE statements are not allowed")
  | .alterTable => throw (.invalidParams "ALTER statements are not allowed")
  | .merge _ | .other _ =>
      throw (.invalidParams "Statement type not allowed: only SELECT queries permitted")

def dialectFor (provider : String) : Dialect :=
  if eqIgnoreAsciiCase provider "snowflake" then .snowflake else .generic

def validateSqlStatementForProvider (parseSql : ParseSql) (statement provider : String) :
    Result Unit :=
  if trim statement = "" then
    throw (.invalidParams "statement cannot be empty")
  else
    match parseSql (dialectFor provider) statement with
    | .error e => throw (.invalidParams ("Invalid SQL syntax: " ++ e))
    | .ok ast =>
        if ast.length ≠ 1 then
          throw (.invalidParams "execute_sql does not support multi-statement requests")
        else ast.forM (validateStatement (denyDuckdbExternalAccess provider))

/-! ## What an accepted statement can still contain -/

/-- The nodes that change data: a data-changing set expression, or SELECT INTO. -/
def Node.isWrite : Node → Bool
  | .setExpr (.insert _) | .setExpr (.update _) | .setExpr (.delete _)
  | .setExpr (.merge _) => true
  | .select s => s.into.isSome
  | _ => false

def ReadOnly (ns : List Node) : Prop := ∀ n ∈ ns, Node.isWrite n = false

instance (ns : List Node) : Decidable (ReadOnly ns) :=
  inferInstanceAs (Decidable (∀ n ∈ ns, Node.isWrite n = false))

@[simp] theorem readOnly_nil : ReadOnly [] := by simp [ReadOnly]

@[simp] theorem readOnly_cons (n : Node) (ns : List Node) :
    ReadOnly (n :: ns) ↔ Node.isWrite n = false ∧ ReadOnly ns := by
  simp [ReadOnly]

@[simp] theorem readOnly_append (ms ns : List Node) :
    ReadOnly (ms ++ ns) ↔ ReadOnly ms ∧ ReadOnly ns := by
  simp only [ReadOnly, List.mem_append, or_imp, forall_and]

mutual

/-- The outermost queries below an expression. -/
def subqueriesOfExpr : Expr → List Query
  | .function _ args => subqueriesOfExprs args
  | .functionSubquery _ q | .subquery q | .exist q => [q]
  | .inSubquery e q => subqueriesOfExpr e ++ [q]
  | .other _ operands => subqueriesOfExprs operands

def subqueriesOfExprs : List Expr → List Query
  | [] => []
  | e :: es => subqueriesOfExpr e ++ subqueriesOfExprs es

end

mutual

/-- The outermost queries below a FROM item. -/
def subqueriesOfFactor : TableFactor → List Query
  | .table _ _ operands | .leaf operands => subqueriesOfExprs operands
  | .derived _ q => [q]
  | .tableFunction e => subqueriesOfExpr e
  | .function _ _ args => subqueriesOfExprs args
  | .nestedJoin t => subqueriesOfTable t
  | .wrapped t operands => subqueriesOfFactor t ++ subqueriesOfExprs operands
  | .pivotSubquery t operands q =>
      subqueriesOfFactor t ++ subqueriesOfExprs operands ++ [q]

def subqueriesOfTable : TableWithJoins → List Query
  | .mk relation joins => subqueriesOfFactor relation ++ subqueriesOfJoins joins

def subqueriesOfJoin : Join → List Query
  | .mk relation constraint =>
      subqueriesOfFactor relation ++ subqueriesOfExprs constraint

def subqueriesOfJoins : List Join → List Query
  | [] => []
  | j :: js => subqueriesOfJoin j ++ subqueriesOfJoins js

end

def subqueriesOfPipe : PipeOperator → List Query
  | .operands es => subqueriesOfExprs es
  | .join j => subqueriesOfJoin j
  | .setOperation qs => qs

def subqueriesOfSelect : Select → List Query
  | .mk projection _ tables operands =>
      subqueriesOfExprs projection ++ tables.flatMap subqueriesOfTable ++
        subqueriesOfExprs operands

mutual

/-- The queries standing where the read-only walk does not go: below the SELECT
lists, FROM items, clauses, VALUES rows and pipe operators that it passes by. -/
def Query.unvisited : Query → List Query
  | .mk ctes body operands pipes =>
      unvisitedOfCtes ctes ++ SetExpr.unvisited body ++ subqueriesOfExprs operands ++
        pipes.flatMap subqueriesOfPipe

def unvisitedOfCtes : List Cte → List Query
  | [] => []
  | .mk _ query :: ctes => Query.unvisited query ++ unvisitedOfCtes ctes

def SetExpr.unvisited : SetExpr → List Query
  | .select s => subqueriesOfSelect s
  | .query q => Query.unvisited q
  | .setOperation l r => SetExpr.unvisited l ++ SetExpr.unvisited r
  | .values operands => subqueriesOfExprs operands
  | .table _ | .insert _ | .update _ | .delete _ | .merge _ => []

end

/-- The same for a whole statement; EXPLAIN stands for the query it explains. -/
def Statement.unvisited : Statement → List Query
  | .query q => Query.unvisited q
  | .explain s => Statement.unvisited s
  | _ => []

mutual

/-- An expression is no write itself, so only its subqueries matter. -/
theorem readOnly_expr : (e : Expr) →
    (ReadOnly e.nodes ↔ ∀ q ∈ subqueriesOfExpr e, ReadOnly q.nodes)
  | .function _ args => by
      simp [Expr.nodes, subqueriesOfExpr, Node.isWrite, readOnly_exprs args]
  | .functionSubquery _ q | .subquery q | .exist q => by
      simp [Expr.nodes, subqueriesOfExpr, Node.isWrite]
  | .inSubquery e q => by
      simp [Expr.nodes, subqueriesOfExpr, Node.isWrite, readOnly_expr e, or_imp, forall_and]
  | .other _ operands => by
      simp [Expr.nodes, subqueriesOfExpr, Node.isWrite, readOnly_exprs operands]

theorem readOnly_exprs : (es : List Expr) →
    (ReadOnly (nodesOfExprs es) ↔ ∀ q ∈ subqueriesOfExprs es, ReadOnly q.nodes)
  | [] => by simp [nodesOfExprs, subqueriesOfExprs]
  | e :: es => by
      simp [nodesOfExprs, subqueriesOfExprs, readOnly_expr e, readOnly_exprs es, or_imp,
        forall_and]

end

mutual

theorem readOnly_factor : (t : TableFactor) →
    (ReadOnly t.nodes ↔ ∀ q ∈ subqueriesOfFactor t, ReadOnly q.nodes)
  | .table _ _ operands | .leaf operands => by
      simp [TableFactor.nodes, subqueriesOfFactor, Node.isWrite, readOnly_exprs operands]
  | .derived _ q => by simp [TableFactor.nodes, subqueriesOfFactor, Node.isWrite]
  | .tableFunction e => by
      simp [TableFactor.nodes, subqueriesOfFactor, Node.isWrite, readOnly_expr e]
  | .function _ _ args => by
      simp [TableFactor.nodes, subqueriesOfFactor, Node.isWrite, readOnly_exprs args]
  | .nestedJoin t => by
      simp [TableFactor.nodes, subqueriesOfFactor, Node.isWrite, readOnly_table t]
  | .wrapped t operands => by
      simp [TableFactor.nodes, subqueriesOfFactor, Node.isWrite, readOnly_factor t,
        readOnly_exprs operands, or_imp, forall_and]
  | .pivotSubquery t operands q => by
      simp [TableFactor.nodes, subqueriesOfFactor, Node.isWrite, readOnly_factor t,
        readOnly_exprs operands, or_imp, forall_and]

theorem readOnly_table : (t : TableWithJoins) →
    (ReadOnly t.nodes ↔ ∀ q ∈ subqueriesOfTable t, ReadOnly q.nodes)
  | .mk relation joins => by
      simp [TableWithJoins.nodes, subqueriesOfTable, readOnly_factor relation,
        readOnly_joins joins, or_imp, forall_and]

theorem readOnly_join : (j : Join) →
    (ReadOnly j.nodes ↔ ∀ q ∈ subqueriesOfJoin j, ReadOnly q.nodes)
  | .mk relation constraint => by
      simp [Join.nodes, subqueriesOfJoin, readOnly_factor relation,
        readOnly_exprs constraint, or_imp, forall_and]

theorem readOnly_joins : (js : List Join) →
    (ReadOnly (nodesOfJoins js) ↔ ∀ q ∈ subqueriesOfJoins js, ReadOnly q.nodes)
  | [] => by simp [nodesOfJoins, subqueriesOfJoins]
  | j :: js => by
      simp [nodesOfJoins, subqueriesOfJoins, readOnly_join j, readOnly_joins js, or_imp,
        forall_and]

end

theorem readOnly_tables (ts : List TableWithJoins) :
    ReadOnly (nodesOfTables ts) ↔
      ∀ q ∈ ts.flatMap subqueriesOfTable, ReadOnly q.nodes := by
  induction ts with
  | nil => simp [nodesOfTables]
  | cons t ts ih =>
      simp only [nodesOfTables, List.flatMap_cons, List.mem_append, or_imp, forall_and,
        readOnly_append, readOnly_table t, ih]

theorem readOnly_queries (qs : List Query) :
    ReadOnly (nodesOfQueries qs) ↔ ∀ q ∈ qs, ReadOnly q.nodes := by
  induction qs with
  | nil => simp [nodesOfQueries]
  | cons q qs ih => simp [nodesOfQueries, ih]

theorem readOnly_pipe (p : PipeOperator) :
    ReadOnly p.nodes ↔ ∀ q ∈ subqueriesOfPipe p, ReadOnly q.nodes := by
  cases p with
  | operands es => simpa [PipeOperator.nodes, subqueriesOfPipe] using readOnly_exprs es
  | join j => simpa [PipeOperator.nodes, subqueriesOfPipe] using readOnly_join j
  | setOperation qs => simpa [PipeOperator.nodes, subqueriesOfPipe] using readOnly_queries qs

theorem readOnly_pipes (ps : List PipeOperator) :
    ReadOnly (nodesOfPipes ps) ↔ ∀ q ∈ ps.flatMap subqueriesOfPipe, ReadOnly q.nodes := by
  induction ps with
  | nil => simp [nodesOfPipes]
  | cons p ps ih =>
      simp only [nodesOfPipes, List.flatMap_cons, List.mem_append, or_imp, forall_and,
        readOnly_append, readOnly_pipe p, ih]

/-- A SELECT writes by its own INTO or by a query below it. -/
theorem readOnly_select (s : Select) :
    ReadOnly s.nodes ↔
      s.into.isSome = false ∧ ∀ q ∈ subqueriesOfSelect s, ReadOnly q.nodes := by
  obtain ⟨projection, into, tables, operands⟩ := s
  simp only [Select.nodes, subqueriesOfSelect, readOnly_cons, readOnly_append, Node.isWrite,
    readOnly_exprs, readOnly_tables, List.mem_append, or_imp, forall_and]

mutual

/-- The read-only walk clears every node outside the unvisited queries. -/
theorem readOnly_query_iff : (q : Query) → validateQueryBodyIsReadOnly q = .ok () →
    (ReadOnly q.nodes ↔ ∀ p ∈ Query.unvisited q, ReadOnly p.nodes)
  | .mk ctes body operands pipes, h => by
      obtain ⟨_, hctes, hbody⟩ := bind_eq_ok.mp h
      simp only [Query.nodes, Query.unvisited, readOnly_append, List.mem_append, or_imp,
        forall_and, readOnly_ctes_iff ctes hctes, readOnly_setExpr_iff body hbody,
        readOnly_exprs, readOnly_pipes]

theorem readOnly_ctes_iff : (ctes : List Cte) → validateCteTables ctes = .ok () →
    (ReadOnly (nodesOfCtes ctes) ↔ ∀ p ∈ unvisitedOfCtes ctes, ReadOnly p.nodes)
  | [], _ => by simp [nodesOfCtes, unvisitedOfCtes]
  | .mk _ query :: ctes, h => by
      obtain ⟨_, hquery, hctes⟩ := bind_eq_ok.mp h
      simp only [nodesOfCtes, Cte.nodes, unvisitedOfCtes, readOnly_append, List.mem_append,
        or_imp, forall_and, readOnly_query_iff query hquery, readOnly_ctes_iff ctes hctes]

theorem readOnly_setExpr_iff : (e : SetExpr) → validateSetExprIsReadOnly e = .ok () →
    (ReadOnly e.nodes ↔ ∀ p ∈ SetExpr.unvisited e, ReadOnly p.nodes)
  | .select s, h => by
      have hinto : s.into.isSome = false := by
        unfold validateSetExprIsReadOnly at h
        split_ifs at h with hs
        simpa using hs
      simp [SetExpr.nodes, SetExpr.unvisited, Node.isWrite, readOnly_select, hinto]
  | .query q, h => by
      simp [SetExpr.nodes, SetExpr.unvisited, Node.isWrite,
        readOnly_query_iff q (by simpa [validateSetExprIsReadOnly] using h)]
  | .setOperation l r, h => by
      obtain ⟨_, hl, hr⟩ := bind_eq_ok.mp h
      simp [SetExpr.nodes, SetExpr.unvisited, Node.isWrite, readOnly_setExpr_iff l hl,
        readOnly_setExpr_iff r hr, or_imp, forall_and]
  | .values operands, _ => by
      simp [SetExpr.nodes, SetExpr.unvisited, Node.isWrite, readOnly_exprs]
  | .table _, _ => by simp [SetExpr.nodes, SetExpr.unvisited, Node.isWrite]

end

theorem readOnly_statement_iff {deny : Bool} {s : Statement}
    (h : validateStatement deny s = .ok ()) :
    ReadOnly s.nodes ↔ ∀ q ∈ Statement.unvisited s, ReadOnly q.nodes := by
  -- Every other statement kind is rejected before its tree is looked at.
  cases s with
  | query q =>
      obtain ⟨_, hq, -⟩ := bind_eq_ok.mp h
      simpa [Statement.nodes, Statement.unvisited] using readOnly_query_iff q hq
  | explain s =>
      cases s with
      | query q =>
          obtain ⟨_, hq, -⟩ := bind_eq_ok.mp h
          simpa [Statement.nodes, Statement.unvisited] using readOnly_query_iff q hq
      | _ => cases h
  | _ => cases h

/-- A successful gate saw exactly one statement and accepted it. -/
theorem validateSqlStatementForProvider_ok {parseSql : ParseSql} {statement provider : String}
    (h : validateSqlStatementForProvider parseSql statement provider = .ok ()) :
    ∃ s, parseSql (dialectFor provider) statement = .ok [s] ∧
      validateStatement (denyDuckdbExternalAccess provider) s = .ok () := by
  unfold validateSqlStatementForProvider at h
  split at h
  · cases h
  split at h
  · cases h
  · rename_i ast hparse
    split at h
    · cases h
    · rename_i hlen
      obtain ⟨s, rfl⟩ := List.length_eq_one_iff.mp (not_not.mp hlen)
      obtain ⟨_, hs, -⟩ := bind_eq_ok.mp h
      exact ⟨s, hparse, hs⟩

/-- An accepted statement is free of data-changing nodes exactly when the
queries that the walk passes by are. -/
theorem accepted_readOnly_iff (parseSql : ParseSql) (statement provider : String)
    (h : validateSqlStatementForProvider parseSql statement provider = .ok ()) :
    ∃ ast, parseSql (dialectFor provider) statement = .ok [ast] ∧
      (ReadOnly ast.nodes ↔ ∀ q ∈ Statement.unvisited ast, ReadOnly q.nodes) := by
  obtain ⟨ast, hparse, hs⟩ := validateSqlStatementForProvider_ok h
  exact ⟨ast, hparse, readOnly_statement_iff hs⟩

/-- `SELECT * FROM t`, with the given INTO target. -/
def starSelect (into : Option ObjectName) (table : String) : Query :=
  .mk [] (.select (.mk [.other "*" []] into
    [.mk (.table [.identifier table] false []) []] [])) [] []

/-- `SELECT * FROM (subquery) x`. -/
def starFrom (subquery : Query) : Query :=
  .mk [] (.select (.mk [.other "*" []] none [.mk (.derived false subquery) []] [])) [] []

/-- A parser that answers as the crate does on a derived table. -/
def parseDerived (into : Option ObjectName) : ParseSql :=
  fun _ _ => .ok [.query (starFrom (starSelect into "orders"))]

theorem accepted_readOnly_derived :
    ∃ ast, parseDerived none (dialectFor "databricks")
        "select * from (select * from orders) x" = .ok [ast] ∧
      (ReadOnly ast.nodes ↔ ∀ q ∈ Statement.unvisited ast, ReadOnly q.nodes) :=
  accepted_readOnly_iff (parseDerived none) "select * from (select * from orders) x"
    "databricks" (by decide)

/-- A SELECT INTO inside a derived table is accepted. -/
theorem derived_select_into_accepted :
    validateSqlStatementForProvider (parseDerived (some [.identifier "backup_orders"]))
        "select * from (select * into backup_orders from orders) x" "databricks" = .ok () ∧
      parseDerived (some [.identifier "backup_orders"]) (dialectFor "databricks")
          "select * from (select * into backup_orders from orders) x" =
        .ok [.query (starFrom (starSelect (some [.identifier "backup_orders"]) "orders"))] ∧
      ¬ ReadOnly (Statement.nodes
        (.query (starFrom (starSelect (some [.identifier "backup_orders"]) "orders")))) := by
  refine ⟨by decide, rfl, by decide⟩

end DbtNova.SqlGate
