import PgPool.Lib.OuterJoin

/-!
# The condition of a query is pushed down to the tables

A query that is rewritten for the system database reads its tables through a function with the text of an inner
query.  The inner query has the `WHERE` clause too, in which what is not of the table became `TRUE`.
-/

namespace PgPool.Where

open OuterJoin

/-! ## Expressions -/

inductive AExprKind where
  | op
  | and
  | or
  | not
  | opAny
  | opAll
  | distinct
  | nullif
  | ofTypes
  | inList
  deriving DecidableEq, Repr

/-- The values of SQL, which of them are conditions, and the operators. -/
class Sql (W : Type) where
  null : W
  truth : W → Option Bool
  ofTruth : Option Bool → W
  truth_ofTruth : ∀ b, truth (ofTruth b) = b
  apply : AExprKind → List String → W → W → W

/-- The names that a column is referred to with, and the column. -/
structure ColumnRef where
  fields : List String
  table : String
  column : String
  deriving DecidableEq, Repr

/-- How the text of a node stands in a longer text: between brackets or key words, as a cast, with key words
behind it, or as a list. -/
inductive FormKind where
  | bracketed
  | cast
  | suffix
  | list
  deriving DecidableEq, Repr

/-- The columns of a table. -/
abbrev Tuple (W : Type) := String → W

/-- A node of an expression.  `foreign`: a function call or a sub-select.  `form`: a node of another kind, with
the texts before, between and after its two arguments. -/
inductive Node (W : Type) where
  | null
  | leaf (text : String) (value : W)
  | columnRef (c : ColumnRef)
  | foreign (text : String) (value : Row String (Tuple W) → W)
  | form (kind : FormKind) (before between after : String) (value : W → W → W) (l r : Node W)
  | aExpr (kind : AExprKind) (name : List String) (lexpr rexpr : Node W)

variable {W : Type}

/-- `AND` and `OR` of conditions that may be `NULL`. -/
def and3 : Option Bool → Option Bool → Option Bool
  | some true, b => b
  | some false, _ => some false
  | none, some false => some false
  | none, _ => none

def or3 : Option Bool → Option Bool → Option Bool
  | some false, b => b
  | some true, _ => some true
  | none, some true => some true
  | none, _ => none

def ColumnRef.value [Sql W] (row : Row String (Tuple W)) (c : ColumnRef) : W :=
  match row c.table with
  | some t => t c.column
  | none => Sql.null

def Node.eval [Sql W] (row : Row String (Tuple W)) : Node W → W
  | .null => Sql.null
  | .leaf _ value => value
  | .columnRef c => c.value row
  | .foreign _ value => value row
  | .form _ _ _ _ value l r => value (l.eval row) (r.eval row)
  | .aExpr kind name l r =>
    match kind with
    | .and => Sql.ofTruth (and3 (Sql.truth (l.eval row)) (Sql.truth (r.eval row)))
    | .or => Sql.ofTruth (or3 (Sql.truth (l.eval row)) (Sql.truth (r.eval row)))
    | .not => Sql.ofTruth ((Sql.truth (r.eval row)).map (!·))
    | kind => Sql.apply kind name (l.eval row) (r.eval row)

/-- A row meets a condition. -/
def Node.holds [Sql W] (e : Node W) (row : Row String (Tuple W)) : Bool := Sql.truth (e.eval row) = some true

def Node.columns : Node W → List ColumnRef
  | .null | .leaf _ _ | .foreign _ _ => []
  | .columnRef c => [c]
  | .form _ _ _ _ _ l r => l.columns ++ r.columns
  | .aExpr kind _ l r =>
    match kind with
    | .not => r.columns
    | _ => l.columns ++ r.columns

/-! ## The code -/

/-- What the condition is printed for: one table of the `FROM` clause, by its alias or its name, or the clause as
a whole. -/
inductive Scope where
  | table (relname : String)
  | fromClause
  deriving DecidableEq, Repr

/-- `_checkVirtualColumn`, with the tables and columns of the `FROM` clause. -/
def checkVirtualColumn (virtual : List (String × String)) (scope : Scope) (c : ColumnRef) : Bool :=
  match scope, c.fields with
  | .table relname, [t, x] => t = relname && virtual.contains (relname, x)
  | .table relname, [x] => virtual.contains (relname, x)
  | .fromClause, [t, x] => virtual.contains (t, x)
  | .fromClause, [x] => virtual.any (·.2 = x)
  | _, _ => false

/-- `_rewriteNode` in the dry run: `r_code` is `SELECT_AEXPR` still. -/
def Node.keepsCode (virtual : List (String × String)) (scope : Scope) : Node W → Bool
  | .null | .leaf _ _ => true
  | .columnRef c => checkVirtualColumn virtual scope c
  | .foreign _ _ => false
  | .form _ _ _ _ _ l r => l.keepsCode virtual scope && r.keepsCode virtual scope
  | .aExpr kind name l r =>
    match kind with
    | .op => name.length ≠ 1 || (l.keepsCode virtual scope && r.keepsCode virtual scope)
    | .not => r.keepsCode virtual scope
    | _ => l.keepsCode virtual scope && r.keepsCode virtual scope

/-- `_rewriteColumnRef`, where the names are not rewritten. -/
def ColumnRef.text (c : ColumnRef) : String :=
  match c.fields with
  | [t, x] => t ++ "." ++ x
  | fields => fields.getLast?.getD ""

/-- `_rewriteNode`. -/
def Node.text : Node W → String
  | .null => ""
  | .leaf text _ => text
  | .columnRef c => c.text
  | .foreign text _ => text
  | .form _ before between after _ l r => before ++ l.text ++ between ++ r.text ++ after
  | .aExpr kind name l r =>
    match kind with
    | .op =>
      match name with
      | [op] => " (" ++ l.text ++ op ++ r.text ++ " )"
      | _ => ""
    | .and => " (" ++ l.text ++ " AND " ++ r.text ++ ")"
    | .or => " (" ++ l.text ++ " OR " ++ r.text ++ ")"
    | .not => " (NOT " ++ r.text ++ ")"
    | .opAny => l.text ++ name.headD "" ++ "ANY(" ++ r.text ++ ")"
    | .opAll => l.text ++ name.headD "" ++ "ALL(" ++ r.text ++ ")"
    | .distinct => " (" ++ l.text ++ " IS DISTINCT FROM " ++ r.text ++ ")"
    | .nullif => " NULLIF(" ++ l.text ++ ", " ++ r.text ++ ")"
    | .ofTypes => l.text ++ (if (name.headD "").startsWith "!" then " IS NOT OF (" else " IS OF (") ++ r.text ++ ")"
    | .inList => l.text ++ (if (name.headD "").startsWith "=" then " IN (" else " NOT IN (") ++ r.text ++ ")"

/-- `CheckWhereCaluse`, with `_writewhereClause`. -/
def checkWhereCaluse (virtual : List (String × String)) (scope : Scope) : Node W → String
  | .aExpr kind name l r =>
    match kind with
    | .op =>
      match name with
      | [op] => if l.keepsCode virtual scope && r.keepsCode virtual scope then l.text ++ op ++ r.text else "TRUE"
      | _ => "TRUE"
    | .and => " (" ++ checkWhereCaluse virtual scope l ++ " AND " ++ checkWhereCaluse virtual scope r ++ ")"
    | .or => " (" ++ checkWhereCaluse virtual scope l ++ " OR " ++ checkWhereCaluse virtual scope r ++ ")"
    | .opAny | .opAll => ""
    | _ => "TRUE"
  | _ => "TRUE"

/-! ## How the text is read -/

/-- The characters of operators. -/
def operatorChars : List Char := "+-*/<>=~!@#%^&|".toList ++ [Char.ofNat 96, '?']

/-- The operator does not run on into the text behind it.  A minus is read by itself behind an operator of the
plain characters. -/
def separate (op text : String) : Bool :=
  match text.toList.head? with
  | none => true
  | some c => c ∉ operatorChars || (c = '-' && op.toList.all ("+*/<>=".toList.contains ·))

/-- The text is an operand as it stands. -/
def Node.operand : Node W → Bool
  | .null | .leaf _ _ | .columnRef _ | .foreign _ _ => true
  | .form kind _ _ _ _ _ _ => kind = .bracketed || kind = .cast
  | .aExpr kind _ _ _ => kind ∉ [AExprKind.opAny, .opAll, .ofTypes, .inList]

/-- Every node inside is printed, and read as it was. -/
def Node.legible : Node W → Bool
  | .null | .leaf _ _ | .columnRef _ | .foreign _ _ => true
  | .form kind _ _ _ _ l r => l.legible && r.legible &&
    match kind with
    | .bracketed | .list => true
    | .suffix => l.operand && r.operand
    | .cast => l.operand && r.operand && l.text.toList.head? ≠ some '-'
  | .aExpr kind name l r => l.legible && r.legible &&
    match kind with
    | .op =>
      match name with
      | [op] => op ≠ "" && l.operand && r.operand && separate op r.text
      | _ => false
    | .and | .or | .not | .nullif => true
    | .distinct => l.operand && r.operand
    | .opAny | .opAll => name ≠ [] && l.operand
    | .ofTypes | .inList => l.operand

def trueNode [Sql W] : Node W := .leaf "TRUE" (Sql.ofTruth (some true))

/-- The text of a condition, and the condition. -/
inductive Reads [Sql W] : String → Node W → Prop where
  | true : Reads "TRUE" trueNode
  | op {op l r} (h : (Node.aExpr .op [op] l r).legible = true) :
      Reads (l.text ++ op ++ r.text) (.aExpr .op [op] l r)
  | and {s t name l r} (hl : Reads s l) (hr : Reads t r) :
      Reads (" (" ++ s ++ " AND " ++ t ++ ")") (.aExpr .and name l r)
  | or {s t name l r} (hl : Reads s l) (hr : Reads t r) :
      Reads (" (" ++ s ++ " OR " ++ t ++ ")") (.aExpr .or name l r)

/-- There are columns of some tables only, and neither functions nor sub-selects. -/
def Node.Over (tables : String → Prop) : Node W → Prop
  | .null | .leaf _ _ => True
  | .columnRef c => tables c.table
  | .foreign _ _ => False
  | .form _ _ _ _ _ l r => l.Over tables ∧ r.Over tables
  | .aExpr kind _ l r =>
    match kind with
    | .not => r.Over tables
    | _ => l.Over tables ∧ r.Over tables

/-! ## The query -/

/-- `system`: the state of the `FROM` clause is `S`, and every table is read by itself; otherwise the clause is
read as a whole.  `ranges`: its tables that are no sub-selects.  `virtual`: its tables and columns. -/
structure SelectStmt (W : Type) where
  system : Bool
  fromClause : From String (Tuple W)
  ranges : List String
  whereClause : Node W
  virtual : List (String × String)

namespace SelectStmt

/-- What the condition is printed for. -/
def scopes (q : SelectStmt W) : List Scope := if q.system then q.ranges.map .table else [.fromClause]

/-- The tables of a scope. -/
def InScope (q : SelectStmt W) : Scope → String → Prop
  | .table relname, n => n = relname
  | .fromClause, n => n ∈ q.fromClause.tables

variable [Sql W] (q : SelectStmt W)

/-- The rows of the `FROM` clause, restricted to the conditions. -/
def pushed (cond : Scope → Node W) (db : String → List (Tuple W)) : List (Row String (Tuple W)) :=
  if q.system then
    q.fromClause.rows
      (q.ranges.foldl (fun db n => restrict db n fun t => (cond (.table n)).holds (single n t)) db)
  else (q.fromClause.rows db).filter (cond .fromClause).holds

/-- The rows of the query. -/
def result (db : String → List (Tuple W)) : List (Row String (Tuple W)) :=
  (q.fromClause.rows db).filter q.whereClause.holds

/-- What is printed is a condition over the columns of its table, or of the clause, and the query keeps its
result on every database. -/
def Unchanged : Prop :=
  ∃ cond : Scope → Node W,
    (∀ scope ∈ q.scopes, Reads (checkWhereCaluse q.virtual scope q.whereClause) (cond scope) ∧
      (cond scope).Over (q.InScope scope)) ∧
    ∀ db, (q.pushed cond db).filter q.whereClause.holds = q.result db

end SelectStmt

end PgPool.Where
