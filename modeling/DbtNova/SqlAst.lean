import Mathlib.Tactic.Common

/-!
# The statement trees the SQL parser hands over

The parser crate is outside this repository, so its tree is modelled by the
positions in which a query, an expression or a FROM item can stand. Variants
that only carry sub-expressions are merged (`Expr.other`, `TableFactor.leaf`,
`TableFactor.wrapped`): their operands are kept in field order, which is the
order in which the crate's derived visitor meets them. No query position is
merged away.
-/
namespace DbtNova.SqlAst

/-- One part of a dotted name; only an identifier part answers `as_ident`. -/
inductive ObjectNamePart where
  | identifier (value : String)
  | function (name : String)
  deriving DecidableEq, Repr

abbrev ObjectName := List ObjectNamePart

def ObjectNamePart.asIdent : ObjectNamePart → Option String
  | .identifier value => some value
  | .function _ => none

mutual

inductive Statement where
  | query (query : Query)
  | explain (statement : Statement)
  | insert (body : WriteBody)
  | update (body : WriteBody)
  | delete (body : WriteBody)
  | merge (body : WriteBody)
  | drop
  | truncate
  | createTable
  | createView
  | alterTable
  | other (kind : String)

/-- What a data-changing statement nests: sources, tables, expressions. -/
inductive WriteBody where
  | mk (sources : List Query) (tables : List TableWithJoins) (operands : List Expr)

/-- `operands` holds ORDER BY, LIMIT, FETCH and settings expressions. -/
inductive Query where
  | mk (cteTables : List Cte) (body : SetExpr) (operands : List Expr)
      (pipeOperators : List PipeOperator)

inductive Cte where
  | mk (name : String) (query : Query)

inductive SetExpr where
  | select (select : Select)
  | query (query : Query)
  | setOperation (left right : SetExpr)
  | values (operands : List Expr)
  | table (name : String)
  | insert (statement : Statement)
  | update (statement : Statement)
  | delete (statement : Statement)
  | merge (statement : Statement)

/-- `projection` starts with the DISTINCT and TOP expressions; `operands` holds
WHERE, GROUP BY, HAVING, QUALIFY and every later clause. -/
inductive Select where
  | mk (projection : List Expr) (into : Option ObjectName)
      (fromTables : List TableWithJoins) (operands : List Expr)

inductive TableWithJoins where
  | mk (relation : TableFactor) (joins : List Join)

inductive Join where
  | mk (relation : TableFactor) (constraint : List Expr)

/-- `wrapped` is PIVOT with a listed source, UNPIVOT and MATCH_RECOGNIZE;
`leaf` is UNNEST and the JSON, XML and semantic-view table sources. -/
inductive TableFactor where
  | table (name : ObjectName) (hasArgs : Bool) (operands : List Expr)
  | derived (lateral : Bool) (subquery : Query)
  | tableFunction (expr : Expr)
  | function (lateral : Bool) (name : ObjectName) (args : List Expr)
  | nestedJoin (table : TableWithJoins)
  | wrapped (table : TableFactor) (operands : List Expr)
  | pivotSubquery (table : TableFactor) (operands : List Expr) (source : Query)
  | leaf (operands : List Expr)

inductive Expr where
  | function (name : ObjectName) (args : List Expr)
  | functionSubquery (name : ObjectName) (subquery : Query)
  | subquery (subquery : Query)
  | exist (subquery : Query)
  | inSubquery (expr : Expr) (subquery : Query)
  | other (kind : String) (operands : List Expr)

inductive PipeOperator where
  | operands (operands : List Expr)
  | join (join : Join)
  | setOperation (queries : List Query)

end

def Select.into : Select → Option ObjectName
  | .mk _ into _ _ => into

/-- The nodes the gate and the visitor distinguish. -/
inductive Node where
  | setExpr (e : SetExpr)
  | select (s : Select)
  | tableFactor (t : TableFactor)
  | expr (e : Expr)

mutual

/-- Every node below a statement, parents first and fields in order. -/
def Statement.nodes : Statement → List Node
  | .query q => q.nodes
  | .explain s => s.nodes
  | .insert b | .update b | .delete b | .merge b => b.nodes
  | .drop | .truncate | .createTable | .createView | .alterTable | .other _ => []

def WriteBody.nodes : WriteBody → List Node
  | .mk sources tables operands =>
      nodesOfQueries sources ++ nodesOfTables tables ++ nodesOfExprs operands

def Query.nodes : Query → List Node
  | .mk ctes body operands pipes =>
      nodesOfCtes ctes ++ body.nodes ++ nodesOfExprs operands ++ nodesOfPipes pipes

def Cte.nodes : Cte → List Node
  | .mk _ query => query.nodes

def SetExpr.nodes : SetExpr → List Node
  | .select s => .setExpr (.select s) :: s.nodes
  | .query q => .setExpr (.query q) :: q.nodes
  | .setOperation l r => .setExpr (.setOperation l r) :: (l.nodes ++ r.nodes)
  | .values operands => .setExpr (.values operands) :: nodesOfExprs operands
  | .table name => [.setExpr (.table name)]
  | .insert s => .setExpr (.insert s) :: s.nodes
  | .update s => .setExpr (.update s) :: s.nodes
  | .delete s => .setExpr (.delete s) :: s.nodes
  | .merge s => .setExpr (.merge s) :: s.nodes

def Select.nodes : Select → List Node
  | .mk projection into tables operands =>
      .select (.mk projection into tables operands) ::
        (nodesOfExprs projection ++ nodesOfTables tables ++ nodesOfExprs operands)

def TableWithJoins.nodes : TableWithJoins → List Node
  | .mk relation joins => relation.nodes ++ nodesOfJoins joins

def Join.nodes : Join → List Node
  | .mk relation constraint => relation.nodes ++ nodesOfExprs constraint

def TableFactor.nodes : TableFactor → List Node
  | .table name hasArgs operands =>
      .tableFactor (.table name hasArgs operands) :: nodesOfExprs operands
  | .derived lateral q => .tableFactor (.derived lateral q) :: q.nodes
  | .tableFunction e => .tableFactor (.tableFunction e) :: e.nodes
  | .function lateral name args =>
      .tableFactor (.function lateral name args) :: nodesOfExprs args
  | .nestedJoin t => .tableFactor (.nestedJoin t) :: t.nodes
  | .wrapped t operands =>
      .tableFactor (.wrapped t operands) :: (t.nodes ++ nodesOfExprs operands)
  | .pivotSubquery t operands q =>
      .tableFactor (.pivotSubquery t operands q) ::
        (t.nodes ++ nodesOfExprs operands ++ q.nodes)
  | .leaf operands => .tableFactor (.leaf operands) :: nodesOfExprs operands

def Expr.nodes : Expr → List Node
  | .function name args => .expr (.function name args) :: nodesOfExprs args
  | .functionSubquery name q => .expr (.functionSubquery name q) :: q.nodes
  | .subquery q => .expr (.subquery q) :: q.nodes
  | .exist q => .expr (.exist q) :: q.nodes
  | .inSubquery e q => .expr (.inSubquery e q) :: (e.nodes ++ q.nodes)
  | .other kind operands => .expr (.other kind operands) :: nodesOfExprs operands

def PipeOperator.nodes : PipeOperator → List Node
  | .operands es => nodesOfExprs es
  | .join j => j.nodes
  | .setOperation qs => nodesOfQueries qs

def nodesOfQueries : List Query → List Node
  | [] => []
  | q :: qs => q.nodes ++ nodesOfQueries qs

def nodesOfCtes : List Cte → List Node
  | [] => []
  | c :: cs => c.nodes ++ nodesOfCtes cs

def nodesOfTables : List TableWithJoins → List Node
  | [] => []
  | t :: ts => t.nodes ++ nodesOfTables ts

def nodesOfJoins : List Join → List Node
  | [] => []
  | j :: js => j.nodes ++ nodesOfJoins js

def nodesOfExprs : List Expr → List Node
  | [] => []
  | e :: es => e.nodes ++ nodesOfExprs es

def nodesOfPipes : List PipeOperator → List Node
  | [] => []
  | p :: ps => p.nodes ++ nodesOfPipes ps

end

end DbtNova.SqlAst
