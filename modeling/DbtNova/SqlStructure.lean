import DbtNova.Json
import DbtNova.PrintedSql
import DbtNova.Text
import Mathlib.Data.List.Sort

/-!
# The structure of a SELECT statement

The signature of a query lists its tables, joins, select items, filters and group keys.
Each entry is a printed part of the tree, normalized: the literals are masked, quotes are
removed, and table aliases are replaced. The tree is that of the parser, with the parts
that are only printed as printed text; it may hold literals with two bodies each. An
alias map is a list in which a key occurs once.
-/
namespace DbtNova.SqlStructure
open PrintedSql SqlLiterals

variable {L M : Type}

/-! ## Trees -/

inductive Expr (L : Type) where
  | and (left right : Expr L)
  | nested (inner : Expr L)
  | other (printed : Printed L)

inductive SelectItem (L : Type) where
  | expr (value : Expr L)
  | qualifiedWildcard (kind : Printed L)
  | wildcard

inductive GroupByExpr (L : Type) where
  | all
  | expressions (values : List (Expr L))

inductive JoinConstraint (L : Type) where
  | on (condition : Expr L)
  | usingColumns (columns : List (Printed L))
  | natural
  | none

inductive JoinKind where
  | join
  | inner
  | left
  | leftOuter
  | right
  | rightOuter
  | fullOuter
  | crossJoin
  | semi
  | leftSemi
  | rightSemi
  | anti
  | leftAnti
  | rightAnti
  | straightJoin
  deriving DecidableEq, Repr

inductive JoinOperator (L : Type) where
  | constrained (kind : JoinKind) (constraint : JoinConstraint L)
  | crossApply
  | outerApply
  | asOf (matchCondition : Expr L) (constraint : JoinConstraint L)

mutual

/-- The body of a query. -/
inductive Query (L : Type) where
  | select (body : Select L)
  | query (inner : Query L)
  | other

inductive Select (L : Type) where
  | mk (tables : List (TableWithJoins L)) (projection : List (SelectItem L))
      (selection prewhere having qualify : Option (Expr L)) (groupBy : GroupByExpr L)

inductive TableWithJoins (L : Type) where
  | mk (relation : TableFactor L) (joins : List (Join L))

inductive Join (L : Type) where
  | mk (relation : TableFactor L) (operator : JoinOperator L)

/-- `pivot` is PIVOT or UNPIVOT, which is also printed as a whole. -/
inductive TableFactor (L : Type) where
  | table (name : Printed L) (label : Option (Printed L))
  | derived (subquery : Query L) (label : Option (Printed L))
  | tableFunction (value : Expr L) (label : Option (Printed L))
  | function (name : Printed L) (label : Option (Printed L))
  | unnest (values : List (Expr L)) (label : Option (Printed L))
  | nestedJoin (inner : TableWithJoins L) (label : Option (Printed L))
  | pivot (source : TableFactor L) (label : Option (Printed L)) (printed : Printed L)
  | other (printed : Printed L)

end

def Expr.print : Expr L → Printed L
  | .and left right => left.print ++ .fixed " AND " :: right.print
  | .nested inner => .fixed "(" :: (inner.print ++ [.fixed ")"])
  | .other printed => printed

/-! ## Normalizing -/

abbrev Aliases := List (String × String)

def isQualifierBoundary (previous : Option Char) : Bool :=
  previous.all fun c => !(c.isAlphanum || c == '_' || c == '$')

def replaceQualifierFrom (needle replacement : List Char) :
    ℕ → Option Char → List Char → List Char
  | _, _, [] => []
  | skipped + 1, _, c :: rest => replaceQualifierFrom needle replacement skipped (some c) rest
  | 0, previous, c :: rest =>
      if needle.isPrefixOf (c :: rest) then
        (if isQualifierBoundary previous then replacement else needle) ++
          replaceQualifierFrom needle replacement (needle.length - 1) (some c) rest
      else c :: replaceQualifierFrom needle replacement 0 (some c) rest

def replaceQualifier (value : String) (label canonical : String) : String :=
  let replacement := if canonical = "" then "" else canonical ++ "."
  String.ofList (replaceQualifierFrom (label ++ ".").toList replacement.toList 0 none value.toList)

/-- Longer aliases come first. -/
def comesBefore (a b : String × String) : Prop :=
  b.1.utf8ByteSize < a.1.utf8ByteSize ∨
    (a.1.utf8ByteSize = b.1.utf8ByteSize ∧ (Text.lt a.1 b.1 = true ∨ a.1 = b.1))

instance (a b : String × String) : Decidable (comesBefore a b) :=
  inferInstanceAs (Decidable (_ ∨ _))

def applyAliases (value : String) (aliases : Aliases) : String :=
  (aliases.insertionSort comesBefore).foldl (fun out entry =>
    if entry.1 = entry.2 then out else replaceQualifier out entry.1 entry.2) value

def stripSingleTableQualifier (value : String) (aliases : Aliases) : String :=
  match Text.sortedSet (aliases.map Prod.snd) with
  | [canonical] => if aliases.length > 2 then value else replaceQualifier value canonical ""
  | _ => value

def collapseWhitespace (value : List Char) : List Char :=
  [' '].intercalate (Text.splitWhitespace value)

def normalizeSqlFragment (value : List Char) (aliases : Aliases) : String :=
  let masked := maskSqlLiterals value
  let unquoted := masked.filter fun c => !(c == '"' || c == '\x60' || c == '[' || c == ']')
  let normalized := collapseWhitespace (unquoted.map Char.toLower)
  let normalized := Text.replace " . " "." normalized
  let normalized := Text.replace " ." "." normalized
  let normalized := Text.replace ". " "." normalized
  let normalized := Text.replace "( " "(" normalized
  let normalized := Text.replace " )" ")" normalized
  let normalized := Text.replace " ," "," normalized
  stripSingleTableQualifier (applyAliases (String.ofList normalized) aliases) aliases

def normalizePrinted (printed : Printed Literal) (aliases : Aliases) : String :=
  normalizeSqlFragment printed.chars aliases

def normalizeExpr (expr : Expr Literal) (aliases : Aliases) : String :=
  normalizePrinted expr.print aliases

def normalizeRelationName (value : Printed Literal) : String := normalizePrinted value []

def normalizeIdentifier (value : Printed Literal) : String := normalizePrinted value []

/-- The last part of a dotted name. -/
def relationLeaf (relation : String) : String :=
  String.ofList (relation.toList.reverse.takeWhile (· != '.')).reverse

/-! ## Aliases -/

def insertAlias (aliases : Aliases) (key canonical : String) : Aliases :=
  aliases.filter (fun entry => entry.1 != key) ++ [(key, canonical)]

/-- The label of a derived table stands for itself. -/
def registerLabel (label : Option (Printed Literal)) (aliases : Aliases) : Aliases :=
  match label with
  | some label => insertAlias aliases (normalizeIdentifier label) (normalizeIdentifier label)
  | none => aliases

mutual

def registerTableFactorAliases : TableFactor Literal → Aliases → Aliases
  | .table name label, aliases =>
      let relation := normalizeRelationName name
      let leaf := relationLeaf relation
      let aliases := insertAlias aliases relation leaf
      match label with
      | some label => insertAlias aliases (normalizeIdentifier label) leaf
      | none => aliases
  | .derived _ label, aliases | .tableFunction _ label, aliases | .function _ label, aliases
  | .unnest _ label, aliases => registerLabel label aliases
  | .nestedJoin inner label, aliases => registerLabel label (registerTableAliases inner aliases)
  | .pivot source label _, aliases =>
      registerLabel label (registerTableFactorAliases source aliases)
  | .other _, aliases => aliases

def registerTableAliases : TableWithJoins Literal → Aliases → Aliases
  | .mk relation joins, aliases =>
      registerJoinAliases joins (registerTableFactorAliases relation aliases)

def registerJoinAliases : List (Join Literal) → Aliases → Aliases
  | [], aliases => aliases
  | .mk relation _ :: joins, aliases =>
      registerJoinAliases joins (registerTableFactorAliases relation aliases)

end

/-- A table that is used more than twice keeps its aliases. -/
def preserveReusedTableAliases (aliases : Aliases) : Aliases :=
  aliases.map fun entry =>
    if (aliases.map Prod.snd).count entry.2 > 2 ∧ entry.1 ≠ entry.2 then (entry.1, entry.1)
    else entry

def qualifierAliases (tables : List (TableWithJoins Literal)) : Aliases :=
  preserveReusedTableAliases
    (tables.foldl (fun aliases table => registerTableAliases table aliases) [])

/-! ## Signatures -/

structure SqlStructureSignature where
  tables : List String
  joins : List String
  select : List String
  filters : List String
  groupBy : List String
  deriving DecidableEq, Repr

/-- The tables and joins of a FROM item. -/
structure TableRefs where
  tables : List String
  joins : List String

def TableRefs.append (a b : TableRefs) : TableRefs := ⟨a.tables ++ b.tables, a.joins ++ b.joins⟩

def collectAndConjuncts : Expr L → List (Expr L)
  | .and left right => collectAndConjuncts left ++ collectAndConjuncts right
  | .nested inner => collectAndConjuncts inner
  | .other printed => [.other printed]

def joinExprs (exprs : List (Expr Literal)) (separator : String) (aliases : Aliases) : String :=
  separator.intercalate (exprs.map fun expr => normalizeExpr expr aliases)

def JoinKind.label : JoinKind → String
  | .join => "join"
  | .inner => "inner join"
  | .left | .leftOuter => "left join"
  | .right | .rightOuter => "right join"
  | .fullOuter => "full join"
  | .crossJoin => "cross join"
  | .semi | .leftSemi => "semi join"
  | .rightSemi => "right semi join"
  | .anti | .leftAnti => "anti join"
  | .rightAnti => "right anti join"
  | .straightJoin => "straight join"

def joinConstraintSignature (before : String) (constraint : JoinConstraint Literal)
    (aliases : Aliases) : String :=
  match constraint with
  | .on condition => before ++ " on " ++ joinExprs (collectAndConjuncts condition) " and " aliases
  | .usingColumns columns => before ++ " using (" ++
      ", ".intercalate (columns.map fun column => normalizePrinted column aliases) ++ ")"
  | .natural => before ++ " natural"
  | .none => before

def tableFactorLabel (factor : TableFactor Literal) (aliases : Aliases) : String :=
  match factor with
  | .table name _ => normalizeRelationName name
  | .derived _ none => "subquery"
  | .derived _ (some label) => "subquery:" ++ normalizeIdentifier label
  | .function name _ => "function:" ++ normalizeRelationName name
  | .tableFunction value _ => "table_function:" ++ normalizeExpr value aliases
  | .unnest values _ => "unnest:" ++ joinExprs values ", " aliases
  | .nestedJoin _ _ => "nested_join"
  | .pivot _ _ printed | .other printed => normalizePrinted printed aliases

def joinSignature (relation : TableFactor Literal) (operator : JoinOperator Literal)
    (aliases : Aliases) : String :=
  let relation := tableFactorLabel relation aliases
  match operator with
  | .asOf matchCondition constraint =>
      joinConstraintSignature
        ("asof join " ++ relation ++ " match " ++ normalizeExpr matchCondition aliases)
        constraint aliases
  | .constrained kind constraint =>
      joinConstraintSignature (kind.label ++ " " ++ relation) constraint aliases
  | .crossApply => "cross apply " ++ relation
  | .outerApply => "outer apply " ++ relation

def normalizeSelectItem (item : SelectItem Literal) (aliases : Aliases) : String :=
  match item with
  | .expr value => normalizeExpr value aliases
  | .qualifiedWildcard kind => normalizePrinted kind aliases
  | .wildcard => "*"

def groupBySignature (groupBy : GroupByExpr Literal) (aliases : Aliases) : List String :=
  match groupBy with
  | .all => ["all"]
  | .expressions values => Text.sortedSet (values.map fun value => normalizeExpr value aliases)

/-- A clause after WHERE, under its keyword. -/
def clauseFilter (keyword : String) (clause : Option (Expr Literal)) (aliases : Aliases) :
    List String :=
  clause.toList.map fun expr => keyword ++ " " ++ normalizeExpr expr aliases

def collectFilters (selection prewhere having qualify : Option (Expr Literal))
    (aliases : Aliases) : List String :=
  selection.toList.flatMap (fun expr =>
      (collectAndConjuncts expr).map fun conjunct => normalizeExpr conjunct aliases) ++
    clauseFilter "prewhere" prewhere aliases ++ clauseFilter "having" having aliases ++
    clauseFilter "qualify" qualify aliases

mutual

def signatureForQuery : Query Literal → Except String SqlStructureSignature
  | .select body => signatureForSelect body
  | .query inner => signatureForQuery inner
  | .other => .error "query structure grading supports simple SELECT query bodies only"

def signatureForSelect : Select Literal → Except String SqlStructureSignature
  | .mk tables projection selection prewhere having qualify groupBy => do
      let aliases := qualifierAliases tables
      let refs ← collectTables tables aliases
      return {
        tables := Text.sortedSet refs.tables
        joins := Text.sortedSet refs.joins
        select := Text.sortedSet (projection.map fun item => normalizeSelectItem item aliases)
        filters := Text.sortedSet (collectFilters selection prewhere having qualify aliases)
        groupBy := groupBySignature groupBy aliases }

def collectTables : List (TableWithJoins Literal) → Aliases → Except String TableRefs
  | [], _ => .ok ⟨[], []⟩
  | table :: tables, aliases => do
      let refs ← collectTableWithJoins table aliases
      let others ← collectTables tables aliases
      return refs.append others

def collectTableWithJoins : TableWithJoins Literal → Aliases → Except String TableRefs
  | .mk relation joins, aliases => do
      let refs ← collectTableFactorRefs relation aliases
      let others ← collectJoins joins aliases
      return refs.append others

def collectJoins : List (Join Literal) → Aliases → Except String TableRefs
  | [], _ => .ok ⟨[], []⟩
  | .mk relation operator :: joins, aliases => do
      let refs ← collectTableFactorRefs relation aliases
      let others ← collectJoins joins aliases
      return (refs.append ⟨[], [joinSignature relation operator aliases]⟩).append others

def collectTableFactorRefs : TableFactor Literal → Aliases → Except String TableRefs
  | .table name _, _ => .ok ⟨[normalizeRelationName name], []⟩
  | .derived subquery _, _ => do
      let signature ← signatureForQuery subquery
      return ⟨signature.tables, signature.joins⟩
  | .nestedJoin inner _, aliases => collectTableWithJoins inner aliases
  | .pivot source _ _, aliases => collectTableFactorRefs source aliases
  | .function name _, _ => .ok ⟨["function:" ++ normalizeRelationName name], []⟩
  | .tableFunction value _, aliases => .ok ⟨["table_function:" ++ normalizeExpr value aliases], []⟩
  | .unnest values _, aliases => .ok ⟨["unnest:" ++ joinExprs values ", " aliases], []⟩
  | .other printed, aliases => .ok ⟨[normalizePrinted printed aliases], []⟩

end

/-! ## Statements with two bodies in each literal -/

section Map
variable (f : L → M)

def Expr.map : Expr L → Expr M
  | .and left right => .and left.map right.map
  | .nested inner => .nested inner.map
  | .other printed => .other (Printed.map f printed)

def SelectItem.map : SelectItem L → SelectItem M
  | .expr value => .expr (value.map f)
  | .qualifiedWildcard kind => .qualifiedWildcard (Printed.map f kind)
  | .wildcard => .wildcard

def GroupByExpr.map : GroupByExpr L → GroupByExpr M
  | .all => .all
  | .expressions values => .expressions (values.map (Expr.map f))

def JoinConstraint.map : JoinConstraint L → JoinConstraint M
  | .on condition => .on (condition.map f)
  | .usingColumns columns => .usingColumns (columns.map (Printed.map f))
  | .natural => .natural
  | .none => .none

def JoinOperator.map : JoinOperator L → JoinOperator M
  | .constrained kind constraint => .constrained kind (constraint.map f)
  | .crossApply => .crossApply
  | .outerApply => .outerApply
  | .asOf matchCondition constraint => .asOf (matchCondition.map f) (constraint.map f)

mutual

def Query.map : Query L → Query M
  | .select body => .select (body.map)
  | .query inner => .query (inner.map)
  | .other => .other

def Select.map : Select L → Select M
  | .mk tables projection selection prewhere having qualify groupBy =>
      .mk (mapTables tables) (projection.map (SelectItem.map f)) (selection.map (Expr.map f))
        (prewhere.map (Expr.map f)) (having.map (Expr.map f)) (qualify.map (Expr.map f))
        (groupBy.map f)

def mapTables : List (TableWithJoins L) → List (TableWithJoins M)
  | [] => []
  | table :: tables => table.map :: mapTables tables

def TableWithJoins.map : TableWithJoins L → TableWithJoins M
  | .mk relation joins => .mk relation.map (mapJoins joins)

def mapJoins : List (Join L) → List (Join M)
  | [] => []
  | .mk relation operator :: joins => .mk relation.map (operator.map f) :: mapJoins joins

def TableFactor.map : TableFactor L → TableFactor M
  | .table name label => .table (Printed.map f name) (label.map (Printed.map f))
  | .derived subquery label => .derived subquery.map (label.map (Printed.map f))
  | .tableFunction value label => .tableFunction (value.map f) (label.map (Printed.map f))
  | .function name label => .function (Printed.map f name) (label.map (Printed.map f))
  | .unnest values label => .unnest (values.map (Expr.map f)) (label.map (Printed.map f))
  | .nestedJoin inner label => .nestedJoin inner.map (label.map (Printed.map f))
  | .pivot source label printed =>
      .pivot source.map (label.map (Printed.map f)) (Printed.map f printed)
  | .other printed => .other (Printed.map f printed)

end

end Map

/-! ### What the signature prints of a statement -/

def SelectItem.fragments : SelectItem L → List (Printed L)
  | .expr value => [value.print]
  | .qualifiedWildcard kind => [kind]
  | .wildcard => []

def GroupByExpr.fragments : GroupByExpr L → List (Printed L)
  | .all => []
  | .expressions values => values.map Expr.print

def JoinConstraint.fragments : JoinConstraint L → List (Printed L)
  | .on condition => (collectAndConjuncts condition).map Expr.print
  | .usingColumns columns => columns
  | .natural | .none => []

def JoinOperator.fragments : JoinOperator L → List (Printed L)
  | .constrained _ constraint => constraint.fragments
  | .crossApply | .outerApply => []
  | .asOf matchCondition constraint => matchCondition.print :: constraint.fragments

/-- What a join prints of its relation besides the parts of that. -/
def TableFactor.labelFragments : TableFactor L → List (Printed L)
  | .pivot _ _ printed => [printed]
  | .table _ _ | .derived _ _ | .tableFunction _ _ | .function _ _ | .unnest _ _
  | .nestedJoin _ _ | .other _ => []

def filterFragments (selection prewhere having qualify : Option (Expr L)) : List (Printed L) :=
  selection.toList.flatMap (fun expr => (collectAndConjuncts expr).map Expr.print) ++
    (prewhere.toList ++ having.toList ++ qualify.toList).map Expr.print

mutual

/-- Of a derived table only the tables and joins are printed. -/
def Query.refFragments : Query L → List (Printed L)
  | .select body => body.refFragments
  | .query inner => inner.refFragments
  | .other => []

def Select.refFragments : Select L → List (Printed L)
  | .mk tables _ _ _ _ _ _ => tablesFragments tables

def tablesFragments : List (TableWithJoins L) → List (Printed L)
  | [] => []
  | table :: tables => table.fragments ++ tablesFragments tables

def TableWithJoins.fragments : TableWithJoins L → List (Printed L)
  | .mk relation joins => relation.fragments ++ joinsFragments joins

def joinsFragments : List (Join L) → List (Printed L)
  | [] => []
  | .mk relation operator :: joins =>
      relation.fragments ++ relation.labelFragments ++ operator.fragments ++ joinsFragments joins

def TableFactor.fragments : TableFactor L → List (Printed L)
  | .table name label => name :: label.toList
  | .derived subquery label => subquery.refFragments ++ label.toList
  | .tableFunction value label => value.print :: label.toList
  | .function name label => name :: label.toList
  | .unnest values label => values.map Expr.print ++ label.toList
  | .nestedJoin inner label => inner.fragments ++ label.toList
  | .pivot source label _ => source.fragments ++ label.toList
  | .other printed => [printed]

end

def Query.fragments : Query L → List (Printed L)
  | .select (.mk tables projection selection prewhere having qualify groupBy) =>
      tablesFragments tables ++ projection.flatMap SelectItem.fragments ++
        filterFragments selection prewhere having qualify ++ groupBy.fragments
  | .query inner => inner.fragments
  | .other => []

/-! ## Hidden literals leave no trace in the signature -/

theorem Expr.print_map (f : L → M) (expr : Expr L) :
    (expr.map f).print = Printed.map f expr.print := by
  induction expr with
  | and left right ihLeft ihRight =>
      rw [Expr.map, Expr.print, Expr.print, ihLeft, ihRight]
      unfold Printed.map
      rw [List.map_append]
      rfl
  | nested inner ih =>
      rw [Expr.map, Expr.print, Expr.print, ih]
      unfold Printed.map
      rw [List.map_cons, List.map_append]
      rfl
  | other printed => rfl

theorem collectAndConjuncts_map (f : L → M) (expr : Expr L) :
    collectAndConjuncts (expr.map f) = (collectAndConjuncts expr).map (Expr.map f) := by
  induction expr with
  | and left right ihLeft ihRight =>
      rw [Expr.map, collectAndConjuncts, collectAndConjuncts, ihLeft, ihRight, List.map_append]
  | nested inner ih => rw [Expr.map, collectAndConjuncts, collectAndConjuncts, ih]
  | other printed => rfl

def AllHidden (fragments : List (Printed LiteralPair)) : Prop := ∀ p ∈ fragments, Hidden p

instance (fragments : List (Printed LiteralPair)) : Decidable (AllHidden fragments) :=
  inferInstanceAs (Decidable (∀ p ∈ fragments, Hidden p))

theorem allHidden_append {ps qs : List (Printed LiteralPair)} :
    AllHidden (ps ++ qs) ↔ AllHidden ps ∧ AllHidden qs := List.forall_mem_append

theorem allHidden_cons {p : Printed LiteralPair} {ps : List (Printed LiteralPair)} :
    AllHidden (p :: ps) ↔ Hidden p ∧ AllHidden ps := List.forall_mem_cons

section Parts
variable {aliases : Aliases}

theorem normalizePrinted_hidden {printed : Printed LiteralPair} (h : Hidden printed)
    (aliases : Aliases) :
    normalizePrinted (Printed.map LiteralPair.first printed) aliases =
      normalizePrinted (Printed.map LiteralPair.second printed) aliases := by
  unfold normalizePrinted normalizeSqlFragment
  rw [h.mask_eq]

theorem normalizeExpr_hidden {expr : Expr LiteralPair} (h : Hidden expr.print)
    (aliases : Aliases) :
    normalizeExpr (expr.map LiteralPair.first) aliases =
      normalizeExpr (expr.map LiteralPair.second) aliases := by
  unfold normalizeExpr
  rw [Expr.print_map, Expr.print_map]
  exact normalizePrinted_hidden h aliases

theorem normalizeExprs_hidden {exprs : List (Expr LiteralPair)}
    (h : AllHidden (exprs.map Expr.print)) (aliases : Aliases) :
    (exprs.map (Expr.map LiteralPair.first)).map (normalizeExpr · aliases) =
      (exprs.map (Expr.map LiteralPair.second)).map (normalizeExpr · aliases) := by
  rw [List.map_map, List.map_map]
  apply List.map_congr_left
  intro expr hexpr
  exact normalizeExpr_hidden (h expr.print (List.mem_map_of_mem hexpr)) aliases

theorem joinExprs_hidden {exprs : List (Expr LiteralPair)} (h : AllHidden (exprs.map Expr.print))
    (separator : String) (aliases : Aliases) :
    joinExprs (exprs.map (Expr.map LiteralPair.first)) separator aliases =
      joinExprs (exprs.map (Expr.map LiteralPair.second)) separator aliases := by
  unfold joinExprs
  rw [normalizeExprs_hidden h]

theorem registerLabel_hidden {label : Option (Printed LiteralPair)} (h : AllHidden label.toList)
    (aliases : Aliases) :
    registerLabel (label.map (Printed.map LiteralPair.first)) aliases =
      registerLabel (label.map (Printed.map LiteralPair.second)) aliases := by
  cases label with
  | none => rfl
  | some label =>
      have hlabel := normalizePrinted_hidden (h label (List.mem_singleton.mpr rfl)) []
      rw [Option.map_some, Option.map_some, registerLabel, registerLabel, normalizeIdentifier,
        normalizeIdentifier, hlabel]

theorem joinConstraintSignature_hidden {constraint : JoinConstraint LiteralPair}
    (h : AllHidden constraint.fragments) (before : String) (aliases : Aliases) :
    joinConstraintSignature before (constraint.map LiteralPair.first) aliases =
      joinConstraintSignature before (constraint.map LiteralPair.second) aliases := by
  cases constraint with
  | on condition =>
      rw [JoinConstraint.map, JoinConstraint.map, joinConstraintSignature, joinConstraintSignature,
        collectAndConjuncts_map, collectAndConjuncts_map, joinExprs_hidden h]
  | usingColumns columns =>
      have hcolumns : (columns.map (Printed.map LiteralPair.first)).map
            (normalizePrinted · aliases) =
          (columns.map (Printed.map LiteralPair.second)).map (normalizePrinted · aliases) := by
        rw [List.map_map, List.map_map]
        apply List.map_congr_left
        intro column hcolumn
        exact normalizePrinted_hidden (h column hcolumn) aliases
      rw [JoinConstraint.map, JoinConstraint.map, joinConstraintSignature, joinConstraintSignature,
        hcolumns]
  | natural => rfl
  | none => rfl

theorem tableFactorLabel_hidden {factor : TableFactor LiteralPair}
    (h : AllHidden factor.fragments) (hlabel : AllHidden factor.labelFragments)
    (aliases : Aliases) :
    tableFactorLabel (factor.map LiteralPair.first) aliases =
      tableFactorLabel (factor.map LiteralPair.second) aliases := by
  cases factor with
  | table name label =>
      rw [TableFactor.fragments, allHidden_cons] at h
      exact normalizePrinted_hidden h.1 []
  | derived subquery label =>
      cases label with
      | none => rfl
      | some label =>
          rw [TableFactor.fragments, allHidden_append] at h
          have hname := normalizePrinted_hidden (h.2 label (List.mem_singleton.mpr rfl)) []
          exact congrArg ("subquery:" ++ ·) hname
  | tableFunction value label =>
      rw [TableFactor.fragments, allHidden_cons] at h
      exact congrArg ("table_function:" ++ ·) (normalizeExpr_hidden h.1 aliases)
  | function name label =>
      rw [TableFactor.fragments, allHidden_cons] at h
      exact congrArg ("function:" ++ ·) (normalizePrinted_hidden h.1 [])
  | unnest values label =>
      rw [TableFactor.fragments, allHidden_append] at h
      exact congrArg ("unnest:" ++ ·) (joinExprs_hidden h.1 ", " aliases)
  | nestedJoin inner label => rfl
  | pivot source label printed =>
      exact normalizePrinted_hidden (hlabel printed (List.mem_singleton.mpr rfl)) aliases
  | other printed =>
      exact normalizePrinted_hidden (h printed (List.mem_singleton.mpr rfl)) aliases

theorem joinSignature_hidden {relation : TableFactor LiteralPair}
    {operator : JoinOperator LiteralPair} (hrelation : AllHidden relation.fragments)
    (hlabel : AllHidden relation.labelFragments) (hoperator : AllHidden operator.fragments)
    (aliases : Aliases) :
    joinSignature (relation.map LiteralPair.first) (operator.map LiteralPair.first) aliases =
      joinSignature (relation.map LiteralPair.second) (operator.map LiteralPair.second) aliases := by
  unfold joinSignature
  rw [tableFactorLabel_hidden hrelation hlabel]
  cases operator with
  | constrained kind constraint => exact joinConstraintSignature_hidden hoperator _ aliases
  | crossApply => rfl
  | outerApply => rfl
  | asOf matchCondition constraint =>
      rw [JoinOperator.fragments, allHidden_cons] at hoperator
      simp only [JoinOperator.map]
      rw [normalizeExpr_hidden hoperator.1]
      exact joinConstraintSignature_hidden hoperator.2 _ aliases

theorem normalizeSelectItem_hidden {item : SelectItem LiteralPair}
    (h : AllHidden item.fragments) (aliases : Aliases) :
    normalizeSelectItem (item.map LiteralPair.first) aliases =
      normalizeSelectItem (item.map LiteralPair.second) aliases := by
  cases item with
  | expr value => exact normalizeExpr_hidden (h value.print (List.mem_singleton.mpr rfl)) aliases
  | qualifiedWildcard kind =>
      exact normalizePrinted_hidden (h kind (List.mem_singleton.mpr rfl)) aliases
  | wildcard => rfl

theorem groupBySignature_hidden {groupBy : GroupByExpr LiteralPair}
    (h : AllHidden groupBy.fragments) (aliases : Aliases) :
    groupBySignature (groupBy.map LiteralPair.first) aliases =
      groupBySignature (groupBy.map LiteralPair.second) aliases := by
  cases groupBy with
  | all => rfl
  | expressions values => exact congrArg Text.sortedSet (normalizeExprs_hidden h aliases)

theorem clauseFilter_hidden {clause : Option (Expr LiteralPair)}
    (h : AllHidden (clause.toList.map Expr.print)) (keyword : String) (aliases : Aliases) :
    clauseFilter keyword (clause.map (Expr.map LiteralPair.first)) aliases =
      clauseFilter keyword (clause.map (Expr.map LiteralPair.second)) aliases := by
  cases clause with
  | none => rfl
  | some expr =>
      have hexpr := normalizeExpr_hidden (h expr.print (List.mem_singleton.mpr rfl)) aliases
      exact congrArg (fun text => [keyword ++ " " ++ text]) hexpr

theorem collectFilters_hidden {selection prewhere having qualify : Option (Expr LiteralPair)}
    (h : AllHidden (filterFragments selection prewhere having qualify)) (aliases : Aliases) :
    collectFilters (selection.map (Expr.map LiteralPair.first))
        (prewhere.map (Expr.map LiteralPair.first)) (having.map (Expr.map LiteralPair.first))
        (qualify.map (Expr.map LiteralPair.first)) aliases =
      collectFilters (selection.map (Expr.map LiteralPair.second))
        (prewhere.map (Expr.map LiteralPair.second)) (having.map (Expr.map LiteralPair.second))
        (qualify.map (Expr.map LiteralPair.second)) aliases := by
  unfold filterFragments at h
  rw [List.map_append, List.map_append, allHidden_append, allHidden_append, allHidden_append] at h
  obtain ⟨hselection, ⟨hprewhere, hhaving⟩, hqualify⟩ := h
  have hconjuncts : (selection.map (Expr.map LiteralPair.first)).toList.flatMap (fun expr =>
        (collectAndConjuncts expr).map fun conjunct => normalizeExpr conjunct aliases) =
      (selection.map (Expr.map LiteralPair.second)).toList.flatMap (fun expr =>
        (collectAndConjuncts expr).map fun conjunct => normalizeExpr conjunct aliases) := by
    cases selection with
    | none => rfl
    | some expr =>
        rw [Option.toList_some, List.flatMap_singleton] at hselection
        simp only [Option.map_some, Option.toList_some, List.flatMap_singleton]
        rw [collectAndConjuncts_map, collectAndConjuncts_map]
        exact normalizeExprs_hidden hselection aliases
  unfold collectFilters
  rw [hconjuncts, clauseFilter_hidden hprewhere, clauseFilter_hidden hhaving,
    clauseFilter_hidden hqualify]

end Parts

mutual

theorem registerTableFactorAliases_hidden : ∀ (factor : TableFactor LiteralPair)
    (aliases : Aliases), AllHidden factor.fragments →
      registerTableFactorAliases (factor.map LiteralPair.first) aliases =
        registerTableFactorAliases (factor.map LiteralPair.second) aliases
  | .table name label, aliases, h => by
      rw [TableFactor.fragments, allHidden_cons] at h
      have hname := normalizePrinted_hidden h.1 []
      rw [TableFactor.map, TableFactor.map]
      cases label with
      | none =>
          simp only [Option.map_none, registerTableFactorAliases, normalizeRelationName, hname]
      | some label =>
          have hlabel := normalizePrinted_hidden (h.2 label (List.mem_singleton.mpr rfl)) []
          simp only [Option.map_some, registerTableFactorAliases, normalizeRelationName,
            normalizeIdentifier, hname, hlabel]
  | .derived subquery label, aliases, h => by
      rw [TableFactor.fragments, allHidden_append] at h
      rw [TableFactor.map, TableFactor.map, registerTableFactorAliases, registerTableFactorAliases,
        registerLabel_hidden h.2]
  | .tableFunction value label, aliases, h => by
      rw [TableFactor.fragments, allHidden_cons] at h
      rw [TableFactor.map, TableFactor.map, registerTableFactorAliases, registerTableFactorAliases,
        registerLabel_hidden h.2]
  | .function name label, aliases, h => by
      rw [TableFactor.fragments, allHidden_cons] at h
      rw [TableFactor.map, TableFactor.map, registerTableFactorAliases, registerTableFactorAliases,
        registerLabel_hidden h.2]
  | .unnest values label, aliases, h => by
      rw [TableFactor.fragments, allHidden_append] at h
      rw [TableFactor.map, TableFactor.map, registerTableFactorAliases, registerTableFactorAliases,
        registerLabel_hidden h.2]
  | .nestedJoin inner label, aliases, h => by
      rw [TableFactor.fragments, allHidden_append] at h
      rw [TableFactor.map, TableFactor.map, registerTableFactorAliases, registerTableFactorAliases,
        registerTableAliases_hidden inner aliases h.1, registerLabel_hidden h.2]
  | .pivot source label printed, aliases, h => by
      rw [TableFactor.fragments, allHidden_append] at h
      rw [TableFactor.map, TableFactor.map, registerTableFactorAliases, registerTableFactorAliases,
        registerTableFactorAliases_hidden source aliases h.1, registerLabel_hidden h.2]
  | .other printed, aliases, _ => by
      rw [TableFactor.map, TableFactor.map, registerTableFactorAliases, registerTableFactorAliases]

theorem registerTableAliases_hidden : ∀ (table : TableWithJoins LiteralPair) (aliases : Aliases),
    AllHidden table.fragments →
      registerTableAliases (table.map LiteralPair.first) aliases =
        registerTableAliases (table.map LiteralPair.second) aliases
  | .mk relation joins, aliases, h => by
      rw [TableWithJoins.fragments, allHidden_append] at h
      rw [TableWithJoins.map, TableWithJoins.map, registerTableAliases, registerTableAliases,
        registerTableFactorAliases_hidden relation aliases h.1, registerJoinAliases_hidden joins _ h.2]

theorem registerJoinAliases_hidden : ∀ (joins : List (Join LiteralPair)) (aliases : Aliases),
    AllHidden (joinsFragments joins) →
      registerJoinAliases (mapJoins LiteralPair.first joins) aliases =
        registerJoinAliases (mapJoins LiteralPair.second joins) aliases
  | [], aliases, _ => by rw [mapJoins, mapJoins]
  | .mk relation operator :: joins, aliases, h => by
      rw [joinsFragments, allHidden_append, allHidden_append, allHidden_append] at h
      obtain ⟨⟨⟨hrelation, -⟩, -⟩, hjoins⟩ := h
      rw [mapJoins, mapJoins, registerJoinAliases, registerJoinAliases,
        registerTableFactorAliases_hidden relation aliases hrelation,
        registerJoinAliases_hidden joins _ hjoins]

end

theorem qualifierAliases_hidden {tables : List (TableWithJoins LiteralPair)}
    (h : AllHidden (tablesFragments tables)) :
    qualifierAliases (mapTables LiteralPair.first tables) =
      qualifierAliases (mapTables LiteralPair.second tables) := by
  have hfold : ∀ aliases : Aliases,
      (mapTables LiteralPair.first tables).foldl
          (fun aliases table => registerTableAliases table aliases) aliases =
        (mapTables LiteralPair.second tables).foldl
          (fun aliases table => registerTableAliases table aliases) aliases := by
    induction tables with
    | nil =>
        intro aliases
        rw [mapTables, mapTables]
    | cons table tables ih =>
        intro aliases
        rw [tablesFragments, allHidden_append] at h
        rw [mapTables, mapTables, List.foldl_cons, List.foldl_cons,
          registerTableAliases_hidden table aliases h.1, ih h.2]
  unfold qualifierAliases
  rw [hfold]

/-- The part of a signature that goes into the statement around it. -/
def SqlStructureSignature.refs (signature : SqlStructureSignature) : TableRefs :=
  ⟨signature.tables, signature.joins⟩

theorem derived_refs (subquery : Query Literal) (label : Option (Printed Literal))
    (aliases : Aliases) :
    collectTableFactorRefs (.derived subquery label) aliases =
      (signatureForQuery subquery).map SqlStructureSignature.refs := by
  rw [collectTableFactorRefs]
  cases signatureForQuery subquery with
  | error message => rfl
  | ok signature => rfl

theorem select_refs (tables : List (TableWithJoins Literal))
    (projection : List (SelectItem Literal))
    (selection prewhere having qualify : Option (Expr Literal)) (groupBy : GroupByExpr Literal) :
    (signatureForSelect (.mk tables projection selection prewhere having qualify groupBy)).map
        SqlStructureSignature.refs =
      (collectTables tables (qualifierAliases tables)).map fun refs =>
        ⟨Text.sortedSet refs.tables, Text.sortedSet refs.joins⟩ := by
  rw [signatureForSelect]
  cases collectTables tables (qualifierAliases tables) with
  | error message => rfl
  | ok refs => rfl

mutual

theorem signatureForQuery_refs_hidden : ∀ query : Query LiteralPair,
    AllHidden query.refFragments →
      (signatureForQuery (query.map LiteralPair.first)).map SqlStructureSignature.refs =
        (signatureForQuery (query.map LiteralPair.second)).map SqlStructureSignature.refs
  | .select (.mk tables projection selection prewhere having qualify groupBy), h => by
      rw [Query.refFragments, Select.refFragments] at h
      rw [Query.map, Query.map, Select.map, Select.map, signatureForQuery, signatureForQuery,
        select_refs, select_refs, qualifierAliases_hidden h, collectTables_hidden tables _ h]
  | .query inner, h => by
      rw [Query.refFragments] at h
      rw [Query.map, Query.map, signatureForQuery, signatureForQuery,
        signatureForQuery_refs_hidden inner h]
  | .other, _ => by rw [Query.map, Query.map]

theorem collectTables_hidden : ∀ (tables : List (TableWithJoins LiteralPair)) (aliases : Aliases),
    AllHidden (tablesFragments tables) →
      collectTables (mapTables LiteralPair.first tables) aliases =
        collectTables (mapTables LiteralPair.second tables) aliases
  | [], aliases, _ => by rw [mapTables, mapTables]
  | table :: tables, aliases, h => by
      rw [tablesFragments, allHidden_append] at h
      rw [mapTables, mapTables, collectTables, collectTables,
        collectTableWithJoins_hidden table aliases h.1, collectTables_hidden tables aliases h.2]

theorem collectTableWithJoins_hidden : ∀ (table : TableWithJoins LiteralPair) (aliases : Aliases),
    AllHidden table.fragments →
      collectTableWithJoins (table.map LiteralPair.first) aliases =
        collectTableWithJoins (table.map LiteralPair.second) aliases
  | .mk relation joins, aliases, h => by
      rw [TableWithJoins.fragments, allHidden_append] at h
      rw [TableWithJoins.map, TableWithJoins.map, collectTableWithJoins, collectTableWithJoins,
        collectTableFactorRefs_hidden relation aliases h.1, collectJoins_hidden joins aliases h.2]

theorem collectJoins_hidden : ∀ (joins : List (Join LiteralPair)) (aliases : Aliases),
    AllHidden (joinsFragments joins) →
      collectJoins (mapJoins LiteralPair.first joins) aliases =
        collectJoins (mapJoins LiteralPair.second joins) aliases
  | [], aliases, _ => by rw [mapJoins, mapJoins]
  | .mk relation operator :: joins, aliases, h => by
      rw [joinsFragments, allHidden_append, allHidden_append, allHidden_append] at h
      obtain ⟨⟨⟨hrelation, hlabel⟩, hoperator⟩, hjoins⟩ := h
      rw [mapJoins, mapJoins, collectJoins, collectJoins,
        collectTableFactorRefs_hidden relation aliases hrelation,
        collectJoins_hidden joins aliases hjoins, joinSignature_hidden hrelation hlabel hoperator]

theorem collectTableFactorRefs_hidden : ∀ (factor : TableFactor LiteralPair) (aliases : Aliases),
    AllHidden factor.fragments →
      collectTableFactorRefs (factor.map LiteralPair.first) aliases =
        collectTableFactorRefs (factor.map LiteralPair.second) aliases
  | .table name label, aliases, h => by
      rw [TableFactor.fragments, allHidden_cons] at h
      have hname := normalizePrinted_hidden h.1 []
      rw [TableFactor.map, TableFactor.map, collectTableFactorRefs, collectTableFactorRefs,
        normalizeRelationName, normalizeRelationName, hname]
  | .derived subquery label, aliases, h => by
      rw [TableFactor.fragments, allHidden_append] at h
      rw [TableFactor.map, TableFactor.map, derived_refs, derived_refs,
        signatureForQuery_refs_hidden subquery h.1]
  | .tableFunction value label, aliases, h => by
      rw [TableFactor.fragments, allHidden_cons] at h
      rw [TableFactor.map, TableFactor.map, collectTableFactorRefs, collectTableFactorRefs,
        normalizeExpr_hidden h.1]
  | .function name label, aliases, h => by
      rw [TableFactor.fragments, allHidden_cons] at h
      have hname := normalizePrinted_hidden h.1 []
      rw [TableFactor.map, TableFactor.map, collectTableFactorRefs, collectTableFactorRefs,
        normalizeRelationName, normalizeRelationName, hname]
  | .unnest values label, aliases, h => by
      rw [TableFactor.fragments, allHidden_append] at h
      rw [TableFactor.map, TableFactor.map, collectTableFactorRefs, collectTableFactorRefs,
        joinExprs_hidden h.1]
  | .nestedJoin inner label, aliases, h => by
      rw [TableFactor.fragments, allHidden_append] at h
      rw [TableFactor.map, TableFactor.map, collectTableFactorRefs, collectTableFactorRefs,
        collectTableWithJoins_hidden inner aliases h.1]
  | .pivot source label printed, aliases, h => by
      rw [TableFactor.fragments, allHidden_append] at h
      rw [TableFactor.map, TableFactor.map, collectTableFactorRefs, collectTableFactorRefs,
        collectTableFactorRefs_hidden source aliases h.1]
  | .other printed, aliases, h => by
      have hprinted := normalizePrinted_hidden (h printed (List.mem_singleton.mpr rfl)) aliases
      rw [TableFactor.map, TableFactor.map, collectTableFactorRefs, collectTableFactorRefs,
        hprinted]

end

/-- Where all that the signature prints is hidden, it does not depend on the literals. -/
theorem signatureForQuery_hidden : ∀ query : Query LiteralPair, AllHidden query.fragments →
    signatureForQuery (query.map LiteralPair.first) =
      signatureForQuery (query.map LiteralPair.second)
  | .select (.mk tables projection selection prewhere having qualify groupBy), h => by
      rw [Query.fragments, allHidden_append, allHidden_append, allHidden_append] at h
      obtain ⟨⟨⟨htables, hprojection⟩, hfilters⟩, hgroupBy⟩ := h
      have hitems : ∀ aliases : Aliases,
          (projection.map (SelectItem.map LiteralPair.first)).map
              (normalizeSelectItem · aliases) =
            (projection.map (SelectItem.map LiteralPair.second)).map
              (normalizeSelectItem · aliases) := by
        intro aliases
        rw [List.map_map, List.map_map]
        apply List.map_congr_left
        intro item hitem
        have hitemHidden : AllHidden item.fragments := fun p hp =>
          hprojection p (List.mem_flatMap.mpr ⟨item, hitem, hp⟩)
        exact normalizeSelectItem_hidden hitemHidden aliases
      rw [Query.map, Query.map, Select.map, Select.map, signatureForQuery, signatureForQuery,
        signatureForSelect, signatureForSelect, qualifierAliases_hidden htables,
        collectTables_hidden tables _ htables]
      simp only [hitems, collectFilters_hidden hfilters, groupBySignature_hidden hgroupBy]
  | .query inner, h => by
      rw [Query.map, Query.map, signatureForQuery, signatureForQuery]
      exact signatureForQuery_hidden inner h
  | .other, _ => by rw [Query.map, Query.map]

end DbtNova.SqlStructure
