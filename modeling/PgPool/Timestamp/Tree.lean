import PgPool.Parser.Nodes

/-!
# Trees of data modifying statements

The trees that `rewrite_timestamp` changes.  A node has a head, which is its type with the fields that the
walker reads, and its sub-nodes in the order of the fields of the struct; a `List` and a `NULL` are nodes
too.  A node that stands in several places of a tree is taken as several nodes.
-/

namespace PgPool

namespace Timestamp

/-- The type of a node.  `tsConst` is `ctx->ts_const`, and `tsParam k` the `k`-th of `ctx->params`. -/
inductive Head where
  | null
  | list
  /-- Sub-nodes: `args`, `agg_order`, `over`. -/
  | funcCall (funcname : List String)
  /-- Sub-nodes: `arg`, `typeName`. -/
  | typeCast
  /-- Sub-nodes: `typmods`, `arrayBounds`. -/
  | typeName (names : List String)
  | aConst (val : Value)
  | tsConst
  | paramRef (number : Nat)
  | tsParam (index : Nat)
  | setToDefault
  /-- Any other type. -/
  | other (tag : NodeTag)
  deriving DecidableEq, Repr

inductive Tree where
  | node (head : Head) (kids : List Tree)

/-- Does `raw_expression_tree_walker` hand the `i`-th sub-node to its walker?  A `CaseWhen` stands for the
two calls that its `CaseExpr` makes. -/
def visitsOther : NodeTag → Nat → Bool
  | .rangeVar, _ | .subLink, _ | .caseExpr, _ | .caseWhen, _ | .rowExpr, _ | .coalesceExpr, _
  | .minMaxExpr, _ | .xmlExpr, _ | .nullTest, _ | .booleanTest, _ | .joinExpr, _ | .intoClause, _
  | .selectStmt, _ | .aExpr, _ | .aIndices, _ | .aIndirection, _ | .aArrayExpr, _ | .resTarget, _
  | .sortBy, _ | .rangeSubselect, _ | .columnDef, _ | .lockingClause, _ | .xmlSerialize, _
  | .withClause, _ | .commonTableExpr, _ => true
  -- not the frame bounds, not the column definitions
  | .windowDef, i | .rangeFunction, i => decide (i < 2)
  | _, _ => false

def Head.visits : Head → Nat → Bool
  | .list, _ | .typeCast, _ | .typeName _, _ => true
  -- not `agg_order`
  | .funcCall _, i => i != 1
  | .other tag, i => visitsOther tag i
  | _, _ => false

namespace Tree

def null : Tree := .node .null []
def listOf (items : List Tree) : Tree := .node .list items
def const (val : Value) : Tree := .node (.aConst val) []
def default : Tree := .node .setToDefault []
def param (number : Nat) : Tree := .node (.paramRef number) []

/-- `SystemTypeName(name)`. -/
def systemType (name : String) : Tree := .node (.typeName ["pg_catalog", name]) [.listOf [], .listOf []]

def cast (arg typeName : Tree) : Tree := .node .typeCast [arg, typeName]

/-- A call without aggregate ordering and OVER clause. -/
def call (funcname : List String) (args : List Tree) : Tree :=
  .node (.funcCall funcname) [.listOf args, .listOf [], .null]

/-- `CURRENT_TIMESTAMP`. -/
def currentTimestamp : Tree := .call ["pg_catalog", "now"] []

/-- `now()`, whose name is `list_make1(makeString("now"))`. -/
def nowCall : Tree := .call ["now"] []

def head : Tree → Head
  | .node head _ => head

def kids : Tree → List Tree
  | .node _ kids => kids

/-- `IsA(node, SetToDefault)`. -/
def isDefault : Tree → Bool
  | .node .setToDefault [] => true
  | _ => false

/-! ### What the walker looks for -/

/-- `isStringConst(node, str)`. -/
def isStringConst (str : String) : Tree → Bool
  | .node (.aConst val) [] => val == .string str
  | _ => false

/-- `isSystemType(node, name)`. -/
def isSystemType (name : String) (t : Tree) : Bool := t.head == .typeName ["pg_catalog", name]

/-- The types of CURRENT_DATE, CURRENT_TIME, LOCALTIMESTAMP and the others. -/
def isClockType (t : Tree) : Bool :=
  t.isSystemType "date" || t.isSystemType "timestamp" || t.isSystemType "timestamptz" ||
    t.isSystemType "time" || t.isSystemType "timetz"

/-- `'now'::text`. -/
def isNowText : Tree → Bool
  | .node .typeCast [arg, typeName] => typeName.isSystemType "text" && arg.isStringConst "now"
  | _ => false

/-- Some `::text`. -/
def isTextCast : Tree → Bool
  | .node .typeCast [_, typeName] => typeName.isSystemType "text"
  | _ => false

end Tree

open PgPool.Timestamp.Tree

/-- What the walker finds at a node. -/
inductive Site where
  /-- `pg_catalog.now()`. -/
  | now
  /-- `'now'::text::T`. -/
  | nowText
  /-- `'now'::T`. -/
  | nowConst
  | plain
  deriving DecidableEq, Repr

/-- The tests of `rewrite_timestamp_walker`. -/
def site : Head → List Tree → Site
  | .funcCall funcname, _ => if funcname = ["pg_catalog", "now"] then .now else .plain
  | .typeCast, [arg, typeName] =>
      if typeName.isClockType then
        if arg.isTextCast then if arg.isNowText then .nowText else .plain
        else if arg.isStringConst "now" then .nowConst
        else .plain
      else .plain
  | _, _ => .plain

/-- A call of `now()`, with or without `pg_catalog`, or the tree that the grammar builds for CURRENT_DATE
and the other words. -/
def isClock (head : Head) (kids : List Tree) : Bool :=
  head == .funcCall ["now"] || site head kids == .now || site head kids == .nowText

def Head.param? : Head → Option Nat
  | .paramRef number => some number
  | _ => none

def Head.tsParam? : Head → Option Nat
  | .tsParam index => some index
  | _ => none

mutual

/-- The numbers of the parameters. -/
def Tree.params : Tree → List Nat
  | .node head kids => head.param?.toList ++ paramsList kids

def paramsList : List Tree → List Nat
  | [] => []
  | t :: ts => t.params ++ paramsList ts

end

mutual

/-- The parameters that have been added. -/
def Tree.tsParams : Tree → List Nat
  | .node head kids => head.tsParam?.toList ++ tsParamsList kids

def tsParamsList : List Tree → List Nat
  | [] => []
  | t :: ts => t.tsParams ++ tsParamsList ts

end

mutual

/-- There is a call of the clock. -/
def Tree.hasClock : Tree → Bool
  | .node head kids => isClock head kids || anyClock kids

def anyClock : List Tree → Bool
  | [] => false
  | t :: ts => t.hasClock || anyClock ts

end

/-! ## What a walk meets -/

/-- The arguments of `now()` are thrown away; the other sub-nodes are walked or left as they are. -/
def walks (head : Head) (kids : List Tree) (i : Nat) : Bool :=
  if site head kids = .now ∧ i = 0 then false else head.visits i

mutual

/-- The numbers of the parameters that a walk meets, the root included. -/
def Tree.met : Tree → List Nat
  | .node head kids => head.param?.toList ++ metList (walks head kids) kids

def metList (visits : Nat → Bool) : List Tree → List Nat
  | [] => []
  | t :: ts => (if visits 0 then t.met else []) ++ metList (fun i => visits (i + 1)) ts

end

mutual

/-- A walk finds something to rewrite. -/
def Tree.finds : Tree → Bool
  | .node head kids => site head kids != .plain || findsList (walks head kids) kids

def findsList (visits : Nat → Bool) : List Tree → Bool
  | [] => false
  | t :: ts => (visits 0 && t.finds) || findsList (fun i => visits (i + 1)) ts

end

mutual

/-- A walk leaves a call of the clock: a `now()` without `pg_catalog`, or one where it does not get. -/
def Tree.leaves : Tree → Bool
  | .node head kids =>
      head == .funcCall ["now"] ||
        leavesList (fun i => site head kids == .now && i == 0) (walks head kids) kids

/-- `dropped` says which are thrown away. -/
def leavesList (dropped visits : Nat → Bool) : List Tree → Bool
  | [] => false
  | t :: ts =>
      (!dropped 0 && if visits 0 then t.leaves else t.hasClock) ||
        leavesList (fun i => dropped (i + 1)) (fun i => visits (i + 1)) ts

end

end Timestamp

end PgPool
