import PgPool.Lib.Partition
import PgPool.Lib.Aggregates

/-!
# Aggregates are pushed down to the nodes

In parallel mode an aggregate query over a distributed table is sent to every node, and what the nodes answer
is aggregated once more.  The inner query has one column for each aggregate of the target list, then one for
each column of the `GROUP BY` clause, then one for each aggregate of the `HAVING` clause, and the outer query
refers to them by their number.
-/

namespace PgPool.Pushdown

open Partition Aggregates Numeric

/-! ## The statement -/

/-- The aggregates that are pushed down. -/
inductive FuncName where
  | count
  | sum
  | min
  | max
  | avg
  deriving DecidableEq, Repr

def FuncName.text : FuncName → String
  | .count => "count"
  | .sum => "sum"
  | .min => "min"
  | .max => "max"
  | .avg => "avg"

/-- What a column reference denotes: a column of the `FROM` clause or, in the `GROUP BY` and `ORDER BY` clauses,
an output column of the query itself. -/
inductive Denotes (C : Type) where
  | input (c : C)
  | output (i : Nat)
  deriving DecidableEq, Repr

/-- A column reference, with its address and the two names that `GetNameFromColumnRef` takes from it.  There is a
table name only if it is written with two names. -/
structure ColumnRef (C : Type) where
  node : Nat
  table : Option String
  column : String
  denotes : Denotes C
  deriving DecidableEq, Repr

/-- An expression: what `_rewriteNode` meets in it, from left to right, and how its value comes from the values
of these. -/
structure Expr (L V β : Type) where
  leaves : List L
  value : List (Option V) → β

/-- The argument of an aggregate, with the text that `_outNode` gives it. -/
structure Argument (C V : Type) where
  out : String
  expr : Expr (ColumnRef C) V (Option V)

/-- The call of an aggregate.  It has no argument if it has the star. -/
structure FuncCall (C V : Type) where
  node : Nat
  funcname : FuncName
  distinct : Bool
  args : Option (Argument C V)

/-- What is rewritten in an expression. -/
inductive Leaf (C V : Type) where
  | call (f : FuncCall C V)
  | column (c : ColumnRef C)

/-- An item of a `GROUP BY` or `ORDER BY` clause: an expression, or the position of an output column. -/
inductive Item (L V : Type) where
  | expr (e : Expr L V (Option V))
  | position (i : Nat)

/-- A query for which `CheckAggOpt` holds.  A query with no `HAVING` clause has the condition that is always
true.  `virtual`: the tables and columns of the `FROM` clause. -/
structure SelectStmt (C V : Type) where
  targetList : List (Expr (Leaf C V) V (Option V))
  groupClause : List (Item (ColumnRef C) V)
  havingClause : Expr (Leaf C V) V Bool
  sortClause : List (Item (Leaf C V) V)
  virtual : List (String × String)

variable {C V L M β : Type}

def Expr.map (f : L → M) (e : Expr L V β) : Expr M V β := ⟨e.leaves.map f, e.value⟩

def Item.leaves : Item L V → List L
  | .expr e => e.leaves
  | .position _ => []

def FuncCall.columns (f : FuncCall C V) : List (ColumnRef C) := (f.args.map fun a => a.expr.leaves).getD []

def Leaf.call? : Leaf C V → Option (FuncCall C V)
  | .call f => some f
  | .column _ => none

def Leaf.column? : Leaf C V → Option (ColumnRef C)
  | .call _ => none
  | .column c => some c

/-- The nodes that are visited, the columns inside the call of an aggregate after the call. -/
def Leaf.visited : Leaf C V → List (Leaf C V)
  | .call f => .call f :: f.columns.map .column
  | .column c => [.column c]

namespace SelectStmt

variable (q : SelectStmt C V)

def targetLeaves : List (Leaf C V) := q.targetList.flatMap Expr.leaves

def groupColumns : List (ColumnRef C) := q.groupClause.flatMap Item.leaves

def havingLeaves : List (Leaf C V) := q.havingClause.leaves

def sortLeaves : List (Leaf C V) := q.sortClause.flatMap Item.leaves

def targetCalls : List (FuncCall C V) := q.targetLeaves.filterMap Leaf.call?

def havingCalls : List (FuncCall C V) := q.havingLeaves.filterMap Leaf.call?

end SelectStmt

/-! ## The analysis -/

/-- `analyze->part`. -/
inductive Part where
  | targetList
  | groupClause
  | havingClause
  | sortClause
  deriving DecidableEq, Repr

/-- `Aggexpr`.  `umapc`: for each column of the target list the column of the `GROUP BY` clause that it was found
to be, `none` where nothing was written to the array. -/
structure Aggexpr (C V : Type) where
  tfunc : List (FuncCall C V)
  col : List (ColumnRef C)
  hfunc : List (FuncCall C V)
  usec : List (ColumnRef C)
  umapc : List (Option Nat)

def initAggexpr : Aggexpr C V := ⟨[], [], [], [], []⟩

/-- The comparison of two references by their names.  A table name counts only if both have one. -/
def sameName (n c : ColumnRef C) : Bool :=
  match n.table, c.table with
  | some t, some t' => t = t' && n.column = c.column
  | _, _ => n.column = c.column

/-- `SeekColumnName`. -/
def seekColumnName (agg : Aggexpr C V) (c : ColumnRef C) : List (Option Nat) :=
  match agg.usec.findIdx? (sameName c) with
  | some i => agg.umapc.set i (some agg.col.length)
  | none => agg.umapc

/-- `AppendAggregate`. -/
def appendAggregate (part : Part) (agg : Aggexpr C V) : Leaf C V → Aggexpr C V
  | .call f =>
    match part with
    | .targetList => { agg with tfunc := agg.tfunc ++ [f] }
    | .havingClause => { agg with hfunc := agg.hfunc ++ [f] }
    | _ => agg
  | .column c =>
    match part with
    | .groupClause => { agg with umapc := seekColumnName agg c, col := agg.col ++ [c] }
    | .targetList => { agg with usec := agg.usec ++ [c], umapc := agg.umapc ++ [none] }
    | _ => agg

/-- The passes over the clauses. -/
def analyzeTarget (q : SelectStmt C V) : Aggexpr C V :=
  (q.targetLeaves.flatMap Leaf.visited).foldl (appendAggregate .targetList) initAggexpr

def analyzeGroup (q : SelectStmt C V) : Aggexpr C V :=
  (q.groupColumns.map .column).foldl (appendAggregate .groupClause) (analyzeTarget q)

def analyze (q : SelectStmt C V) : Aggexpr C V :=
  (q.havingLeaves.flatMap Leaf.visited).foldl (appendAggregate .havingClause) (analyzeGroup q)

/-- The columns of the inner query, as `writeSelectAggHeader` prints them. -/
def Aggexpr.columns (agg : Aggexpr C V) : List (Leaf C V) :=
  agg.tfunc.map .call ++ agg.col.map .column ++ agg.hfunc.map .call

/-! ## The text of the outer query -/

/-- A column name in the outer query: `pool_g$n`, with `none` for a number that nothing was written to,
`pool_c$n`, or the name as it is. -/
inductive OuterColumn (C : Type) where
  | group (n : Option Nat)
  | pool (c : ColumnRef C)
  | raw (c : ColumnRef C)

/-- `call`: an aggregate of `pool_g$n`, for `avg` the quotient of the sums of `pool_g$n` and `pool_g$nc`. -/
inductive OuterLeaf (C V : Type) where
  | call (funcname : FuncName) (distinct : Bool) (n : Nat)
  | plain (funcname : FuncName) (distinct : Bool) (args : Option (Expr (OuterColumn C) V (Option V)))
  | column (c : OuterColumn C)

/-- `_outFuncCall`. -/
def outFuncCall (f : FuncCall C V) : String :=
  f.funcname.text ++ "(" ++ (if f.distinct then "DISTINCT " else "") ++
    (match f.args with
      | some a => a.out
      | none => "*") ++ ")"

/-- `FuncChangebyAggregate`. -/
def funcChangebyAggregate (part : Part) (agg : Aggexpr C V) (f : FuncCall C V) : Option Nat :=
  match part with
  | .targetList => agg.tfunc.findIdx? fun t => f.node = t.node
  | .havingClause => agg.hfunc.findIdx? fun h => f.node = h.node
  | .sortClause => agg.tfunc.findIdx? fun t => outFuncCall f = outFuncCall t
  | .groupClause => none

/-- `ColumnChangebyAggregate`. -/
def columnChangebyAggregate (part : Part) (agg : Aggexpr C V) (c : ColumnRef C) : Option (Option Nat) :=
  match part with
  | .groupClause => (agg.col.findIdx? fun g => c.node = g.node).map fun i => some (agg.tfunc.length + i)
  | .targetList => (agg.usec.findIdx? (sameName c)).map fun i =>
      (agg.umapc[i]?.join).map (agg.tfunc.length + ·)
  | .havingClause | .sortClause => (agg.col.findIdx? (sameName c)).map fun i => some (agg.tfunc.length + i)

/-- `GetPoolColumn` has a column of the `FROM` clause for the name. -/
def getPoolColumn (q : SelectStmt C V) (c : ColumnRef C) : Bool :=
  q.virtual.any fun v => (match c.table with
    | some t => t = v.1
    | none => true) && c.column = v.2

/-- `_rewriteColumnRef`. -/
def rewriteColumnRef (q : SelectStmt C V) (part : Part) (c : ColumnRef C) : OuterColumn C :=
  match columnChangebyAggregate part (analyze q) c with
  | some n => .group n
  | none => if getPoolColumn q c then .pool c else .raw c

/-- `_rewriteFuncCall`. -/
def rewriteFuncCall (q : SelectStmt C V) (part : Part) (f : FuncCall C V) : OuterLeaf C V :=
  match funcChangebyAggregate part (analyze q) f with
  | some i => .call f.funcname f.distinct i
  | none => .plain f.funcname f.distinct (f.args.map fun a => a.expr.map (rewriteColumnRef q part))

def rewriteLeaf (q : SelectStmt C V) (part : Part) : Leaf C V → OuterLeaf C V
  | .call f => rewriteFuncCall q part f
  | .column c => .column (rewriteColumnRef q part c)

/-- The outer query has the column. -/
def OuterColumn.known (columns : List (Leaf C V)) : OuterColumn C → Bool
  | .group (some n) => n < columns.length
  | .group none => false
  | .pool _ => false
  | .raw c =>
    match c.denotes with
    | .input _ => false
    | .output _ => true

/-- There is a `pool_g$nc` for `avg` only. -/
def OuterLeaf.known (columns : List (Leaf C V)) : OuterLeaf C V → Bool
  | .call f _ n =>
    match columns[n]? with
    | some (.call h) => f ≠ .avg || h.funcname = .avg
    | some (.column _) => f ≠ .avg
    | none => false
  | .plain _ _ (some e) => e.leaves.all fun c => c.known columns
  | .plain _ _ none => true
  | .column c => c.known columns

def Denotes.isInput : Denotes C → Bool
  | .input _ => true
  | .output _ => false

/-- Neither query refers to a column that it does not have. -/
def SelectStmt.runs (q : SelectStmt C V) : Bool :=
  q.groupColumns.all (·.denotes.isInput) &&
  q.groupColumns.all (fun c => (rewriteColumnRef q .groupClause c).known (analyze q).columns) &&
  q.targetLeaves.all (fun l => (rewriteLeaf q .targetList l).known (analyze q).columns) &&
  q.havingLeaves.all (fun l => (rewriteLeaf q .havingClause l).known (analyze q).columns) &&
  q.sortLeaves.all (fun l => (rewriteLeaf q .sortClause l).known (analyze q).columns)

/-! ## What the queries answer -/

/-- A row of the tables that the query reads, after its `WHERE` clause. -/
abbrev Row (C V : Type) := C → Option V

def Expr.eval (f : L → Option V) (e : Expr L V β) : β := e.value (e.leaves.map f)

def Item.eval (f : L → Option V) (outs : Nat → Option V) : Item L V → Option V
  | .expr e => e.eval f
  | .position i => outs i

def Denotes.value (row : Option (Row C V)) (outs : Nat → Option V) : Denotes C → Option V
  | .input c => row.bind (· c)
  | .output i => outs i

/-- There are no output columns where a query has its aggregates, its target list and its conditions. -/
def noOutput (_ : Nat) : Option V := none

section Answer

variable [LinearOrder V] [Numeric V]

def FuncName.aggregate (f : FuncName) (distinct : Bool) (xs : List (Option V)) : Option V :=
  let xs := if distinct then xs.dedup else xs
  match f with
  | .count => Aggregates.count xs
  | .sum => Aggregates.sum xs
  | .min => extreme List.min? xs
  | .max => extreme List.max? xs
  | .avg => Aggregates.avg xs

/-- The value that a call aggregates.  With the star every row counts. -/
def FuncCall.argument (f : FuncCall C V) (r : Row C V) : Option V :=
  match f.args with
  | some a => a.expr.eval fun c => c.denotes.value (some r) noOutput
  | none => some (ofNumber 1)

/-- The value of a leaf in a row, where the values of the calls are given. -/
def Leaf.valueAt (calls : FuncCall C V → Option V) (row : Option (Row C V)) (outs : Nat → Option V) :
    Leaf C V → Option V
  | .call f => calls f
  | .column c => c.denotes.value row outs

/-- The value of a call in a group of rows. -/
def FuncCall.value (g : List (Row C V)) (f : FuncCall C V) : Option V :=
  f.funcname.aggregate f.distinct (g.map f.argument)

/-- The value of a leaf in a group of rows. -/
def Leaf.value (g : List (Row C V)) (outs : Nat → Option V) : Leaf C V → Option V :=
  Leaf.valueAt (FuncCall.value g) g.head? outs

namespace SelectStmt

variable (q : SelectStmt C V)

def grouped : Bool := !q.groupClause.isEmpty

/-- An output column that the rows are grouped by. -/
def rowOutput (r : Row C V) (i : Nat) : Option V :=
  q.targetList[i]?.bind fun e => e.eval (Leaf.valueAt (fun _ => none) (some r) noOutput)

def key (r : Row C V) : List (Option V) :=
  q.groupClause.map fun item =>
    item.eval (fun c => c.denotes.value (some r) (q.rowOutput r)) (q.rowOutput r)

/-- An output column of a group. -/
def output (g : List (Row C V)) (i : Nat) : Option V :=
  q.targetList[i]?.bind fun e => e.eval (Leaf.value g noOutput)

/-- The values of the target list, and of the `ORDER BY` clause, for a group that meets the `HAVING` clause. -/
def result (g : List (Row C V)) : Option (List (Option V) × List (Option V)) :=
  if q.havingClause.eval (Leaf.value g noOutput) then
    some (q.targetList.map fun e => e.eval (Leaf.value g noOutput),
      q.sortClause.map fun item => item.eval (Leaf.value g (q.output g)) (q.output g))
  else none

/-- The answer to the query on all rows. -/
def answer (rows : List (Row C V)) : List (List (Option V) × List (Option V)) :=
  (groups q.grouped q.key rows).filterMap q.result

end SelectStmt

/-- `pool_g$n` and `pool_g$nc` in a row of the inner query. -/
structure Cell (V : Type) where
  value : Option V
  count : Option V

def innerCell (g : List (Row C V)) : Leaf C V → Cell V
  | .call f =>
    match f.funcname with
    | .avg => ⟨FuncName.sum.aggregate f.distinct (g.map f.argument),
        FuncName.count.aggregate f.distinct (g.map f.argument)⟩
    | _ => ⟨f.value g, none⟩
  | .column c => ⟨c.denotes.value g.head? noOutput, none⟩

/-- The values that the inner query is grouped by. -/
def innerKey (agg : Aggexpr C V) (r : Row C V) : List (Option V) :=
  agg.col.map fun c => c.denotes.value (some r) noOutput

def innerGroups (agg : Aggexpr C V) (rows : List (Row C V)) : List (List (Row C V)) :=
  groups (!agg.col.isEmpty) (innerKey agg) rows

def innerRow (agg : Aggexpr C V) (g : List (Row C V)) : List (Cell V) := agg.columns.map (innerCell g)

/-- The answer of a node to the inner query. -/
def inner (agg : Aggexpr C V) (rows : List (Row C V)) : List (List (Cell V)) :=
  (innerGroups agg rows).map (innerRow agg)

def cellValue (n : Nat) (row : List (Cell V)) : Option V := row[n]?.bind Cell.value

def cellCount (n : Nat) (row : List (Cell V)) : Option V := row[n]?.bind Cell.count

/-- A column that is not known has no value. -/
def OuterColumn.value (row : Option (List (Cell V))) (outs : Nat → Option V) : OuterColumn C → Option V
  | .group (some n) => row.bind (cellValue n)
  | .group none => none
  | .pool _ => none
  | .raw c => c.denotes.value (none : Option (Row C V)) outs

def outerCall (f : FuncName) (distinct : Bool) (values counts : List (Option V)) : Option V :=
  match f with
  | .count => FuncName.sum.aggregate distinct values
  | .avg => divide (FuncName.sum.aggregate distinct values) (FuncName.sum.aggregate false counts)
  | f => f.aggregate distinct values

def OuterLeaf.value (rows : List (List (Cell V))) (outs : Nat → Option V) : OuterLeaf C V → Option V
  | .call f distinct n => outerCall f distinct (rows.map (cellValue n)) (rows.map (cellCount n))
  | .plain f distinct args => f.aggregate distinct (rows.map fun row =>
      match args with
      | some e => e.eval (OuterColumn.value (some row) noOutput)
      | none => some (ofNumber 1))
  | .column c => c.value rows.head? outs

namespace SelectStmt

variable (q : SelectStmt C V)

def outerRowOutput (row : List (Cell V)) (i : Nat) : Option V :=
  q.targetList[i]?.bind fun e => e.eval fun leaf =>
    match rewriteLeaf q .targetList leaf with
    | .column c => c.value (some row) noOutput
    | _ => none

def outerKey (row : List (Cell V)) : List (Option V) :=
  q.groupClause.map fun item => item.eval
    (fun c => (rewriteColumnRef q .groupClause c).value (some row) (q.outerRowOutput row)) (q.outerRowOutput row)

def outerOutput (rows : List (List (Cell V))) (i : Nat) : Option V :=
  q.targetList[i]?.bind fun e => e.eval fun leaf => (rewriteLeaf q .targetList leaf).value rows noOutput

def outerResult (rows : List (List (Cell V))) : Option (List (Option V) × List (Option V)) :=
  if q.havingClause.eval fun leaf => (rewriteLeaf q .havingClause leaf).value rows noOutput then
    some (q.targetList.map fun e => e.eval fun leaf => (rewriteLeaf q .targetList leaf).value rows noOutput,
      q.sortClause.map fun item => item.eval
        (fun leaf => (rewriteLeaf q .sortClause leaf).value rows (q.outerOutput rows)) (q.outerOutput rows))
  else none

def merged (nodes : List (List (Row C V))) : List (List (Option V) × List (Option V)) :=
  (groups q.grouped q.outerKey (nodes.flatMap (inner (analyze q)))).filterMap q.outerResult

/-- The answer to the outer query, over what all nodes answer to the inner one.  `none`: it fails. -/
def rewritten (nodes : List (List (Row C V))) : Option (List (List (Option V) × List (Option V))) :=
  if q.runs then some (q.merged nodes) else none

end SelectStmt

end Answer

end PgPool.Pushdown
