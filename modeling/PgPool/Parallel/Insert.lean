import PgPool.Parallel.Rules

/-!
# `INSERT` in parallel mode

`examInsertStmt` finds the place of the distribution key, `getInsertRule` reads the key out of the row of
constants, and `rewrite_query_stmt` sends the text of the tree to one node or an error to the frontend.
-/

namespace PgPool.Parallel

/-! ## The tree -/

/-- The `Value` of an `A_Const`, with its string where it is not an integer. -/
inductive Const where
  | integer (ival : Int)
  | float (str : List Char)
  | string (str : List Char)
  | bitString (str : List Char)
  | null
  deriving DecidableEq

/-- An expression of a row; `ε` are the expressions and clauses that are not looked at. -/
inductive Expr (ε : Type) where
  | aConst (val : Const)
  | typeCast (arg : Expr ε) (typeName : String)
  | setToDefault
  | other (e : ε)
  deriving DecidableEq

/-- A target column. -/
structure ResTarget (ε : Type) where
  name : String
  indirection : List ε
  deriving DecidableEq

/-- A `SelectStmt`, by the fields that tell its forms apart: a query has a `targetList`, `VALUES` has
`valuesLists`, a set operation neither. -/
structure SelectStmt (ε : Type) where
  targetList : List ε
  valuesLists : List (List (Expr ε))
  clauses : List ε
  deriving DecidableEq

/-- An `InsertStmt`; `DEFAULT VALUES` has no `selectStmt`. -/
structure InsertStmt (ε : Type) where
  schemaname : Option String
  relname : String
  cols : List (ResTarget ε)
  selectStmt : Option (SelectStmt ε)
  returningList : List ε
  deriving DecidableEq

/-- The result of `examInsertStmt`: `r_code` with the error or the node, or the end of the process. -/
inductive Exam where
  | restriction (message : String)
  | distNoRule
  | ok (rNode : Int)
  | nullPointer
  deriving DecidableEq

/-- What becomes of the statement.
* `sent`: the text has gone to one node.
* `rejected`: the frontend has got an error; `aborted` if the nodes have got a statement that fails.
* `continued`: the statement is handled as in the other modes.
* `crashed`: the child has read through a null pointer. -/
inductive InsertEnd where
  | sent (node : Int) (query : List Char)
  | rejected (message : String) (aborted : Bool)
  | continued
  | crashed
  deriving DecidableEq

variable {ε : Type}

/-! ## The node of a row -/

/-- The loop of `getInsertRule` over casts. -/
def Expr.stripCasts : Expr ε → Expr ε
  | .typeCast arg _ => arg.stripCasts
  | e => e

/-- The text of a constant that goes to `pool_get_id`; the null constant has a null pointer. -/
def Const.text : Const → Option (List Char)
  | .integer ival => some ival.repr.toList
  | .float str => some str
  | .string str => some str
  | .bitString str => some str
  | .null => none

section

variable (db : SystemDb) (info : DistDefInfo)

/-- The loop of `getInsertRule` over the row. -/
def insertRuleLoop (divKeyNum : Nat) : List (Expr ε) → Nat → Int
  | [], _ => -1
  | e :: rest, loopCounter =>
    match e.stripCasts with
    | .aConst value =>
      if loopCounter = divKeyNum then
        match value.text with
        | some str => db.poolGetId info str
        | none => -1
      else insertRuleLoop divKeyNum rest (loopCounter + 1)
    | _ => -1

/-- `getInsertRule`. -/
def getInsertRule (listT : List (List (Expr ε))) (divKeyNum : Nat) : Int :=
  match listT with
  | [row] => insertRuleLoop db info divKeyNum row 0
  | _ => -1

/-- The place of the key: the number at which the search for its name stops, and whether it has found
the name. -/
def divKey (cols : List (ResTarget ε)) : Nat × Bool :=
  if cols = [] then (info.distKeyColId, true)
  else (cols.findIdx (·.name = info.distKeyColName), cols.any (·.name = info.distKeyColName))

/-- `examInsertStmt`, once the rule is found. -/
def examRows (cols : List (ResTarget ε)) (select : SelectStmt ε) : Exam :=
  if select.valuesLists = [] then .restriction "cannot find target List"
  else
    match select.valuesLists with
    | [row] =>
      if row.length < (divKey info cols).1 then .restriction "cannot find dividing key in InsertStmt"
      else if (divKey info cols).2 = false then .restriction "cannot find dividing key in InsertStmt"
      else if getInsertRule db info [row] (divKey info cols).1 < 0 then
        .restriction "cannot get node_id from system db"
      else .ok (getInsertRule db info [row] (divKey info cols).1)
    | _ => .restriction "cannot analzye this InsertStmt"

/-- `examInsertStmt`. -/
def examInsertStmt (dbname : String) (insert : InsertStmt ε) : Exam :=
  match db.poolGetDistDefInfo dbname insert.schemaname (some insert.relname) with
  | none => .distNoRule
  | some info =>
    match insert.selectStmt with
    | none => .nullPointer
    | some select =>
      if select.targetList ≠ [] then .restriction "cannot use SelectStmt in InsertStmt"
      else examRows db info insert.cols select

end

/-- `rewrite_query_stmt` for an `INSERT`.  `tstate` is the transaction state of the master. -/
def rewriteInsert (db : SystemDb) (nodeToString : InsertStmt ε → List Char) (dbname : String)
    (tstate : Char) (insert : InsertStmt ε) : InsertEnd :=
  match examInsertStmt db dbname insert with
  | .ok rNode => .sent rNode (nodeToString insert)
  | .restriction message => .rejected message (tstate = 'T')
  | .distNoRule => .continued
  | .nullPointer => .crashed

end PgPool.Parallel
