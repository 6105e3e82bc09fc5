import PgPool.Timestamp.Tree

/-!
# `rewrite_timestamp`

`pool_timestamp.c`: calls of the clock become a constant that the master has been asked for, or
parameters that get a value with every Bind or EXECUTE.
-/

namespace PgPool

namespace Timestamp

open PgPool.Timestamp.Tree

/-- `TSAttr`: a column, its default, and whether the default is a time and mentions `now()`. -/
structure TSAttr where
  attrname : String
  adsrc : String
  useTimestamp : Bool
  deriving DecidableEq, Repr

/-- What the master is asked for: the columns of the table, the value of an expression, and the time. -/
structure Master where
  /-- `relcache_lookup`. -/
  relcache : String → Option (List TSAttr)
  /-- The one value of a query; `none` if the query fails or the value is NULL, of which the source would
  take the length. -/
  select : List UInt8 → Option String
  /-- `get_current_timestamp`. -/
  currentTimestamp : Option String

/-- A master whose tables have two columns that are no times. -/
def plainMaster : Master where
  relcache _ := some [⟨"a", "", false⟩, ⟨"b", "", false⟩]
  select _ := none
  currentTimestamp := some "2009-01-01 23:59:59.123456+09"

/-- `TSRewriteContext`: `added` is the length of `params`. -/
structure Ctx where
  rewriteToParams : Bool
  numParams : Nat
  added : Nat
  rewrite : Bool
  deriving DecidableEq, Repr

namespace Ctx

/-- `makeTsExpr`. -/
def makeTsExpr (ctx : Ctx) : Tree × Ctx :=
  if ctx.rewriteToParams then (.node (.tsParam ctx.added) [], { ctx with added := ctx.added + 1 })
  else (.node .tsConst [], ctx)

def setRewrite (ctx : Ctx) : Ctx := { ctx with rewrite := true }

/-- Count how many parameters there are in the original query. -/
def count (head : Head) (ctx : Ctx) : Ctx :=
  match head with
  | .paramRef number => if ctx.numParams < number then { ctx with numParams := number } else ctx
  | _ => ctx

end Ctx

/-! ## The walker -/

/-- `timestamptz(ts::text)`, but for the name. -/
def nowArgs (ts : Tree) : Tree := .listOf [.cast ts (.systemType "text")]

/-- `tc->arg = ts`. -/
def setArg (ts : Tree) : Tree → Tree
  | .node .typeCast (_ :: rest) => .node .typeCast (ts :: rest)
  | t => t

/-- What becomes of a node whose sub-nodes have been walked. -/
def rebuild (ts : Tree) (head : Head) (kids : List Tree) : Site → Tree
  | .now => .node (.funcCall ["pg_catalog", "timestamptz"]) (nowArgs ts :: kids.drop 1)
  | .nowText =>
      match kids with
      | arg :: rest => .node head (setArg ts arg :: rest)
      | [] => .node head []
  | .nowConst => setArg ts (.node head kids)
  | .plain => .node head kids

/-- What the walker does to the context at a node. -/
def enter (head : Head) (kids : List Tree) (ctx : Ctx) : Tree × Ctx :=
  if site head kids = .plain then (.null, ctx.count head)
  else
    let (ts, ctx) := ctx.makeTsExpr
    (ts, ctx.setRewrite)

mutual

/-- `rewrite_timestamp_walker`.  In the trees that it puts in there is nothing for it, so that it makes no
difference that they are not walked here. -/
def walker : Tree → Ctx → Tree × Ctx
  | .node head kids, ctx =>
      let (ts, ctx) := enter head kids ctx
      let (kids', ctx) := walkList (walks head kids) kids ctx
      (rebuild ts head kids' (site head kids), ctx)

def walkList (visits : Nat → Bool) : List Tree → Ctx → List Tree × Ctx
  | [], ctx => ([], ctx)
  | t :: ts, ctx =>
      let (t', ctx) := if visits 0 then walker t ctx else (t, ctx)
      let (ts', ctx) := walkList (fun i => visits (i + 1)) ts ctx
      (t' :: ts', ctx)

end

/-- `raw_expression_tree_walker(node, rewrite_timestamp_walker, ctx)`: the node itself is not looked at. -/
def walkBelow (t : Tree) (ctx : Ctx) : Tree × Ctx :=
  let (kids, ctx) := walkList t.head.visits t.kids ctx
  (.node t.head kids, ctx)

/-- The same for a `List`. -/
def walkItems (ts : List Tree) (ctx : Ctx) : List Tree × Ctx := walkList (fun _ => true) ts ctx

/-! ## Statements -/

structure ResTarget where
  name : String
  indirection : List Tree
  val : Tree

/-- The SELECT of an INSERT: `front` are the sub-nodes before `valuesLists`, from `distinctClause` to
`withClause`, and `back` those from `sortClause` to `rarg`. -/
structure InsertSource where
  front : List Tree
  valuesLists : List (List Tree)
  back : List Tree

/-- `InsertStmt`; `relname` is the text of `relation`. -/
structure InsertStmt where
  relname : String
  cols : List ResTarget
  selectStmt : Option InsertSource
  returningList : List Tree

structure UpdateStmt where
  relname : String
  targetList : List ResTarget
  whereClause : Tree
  fromClause : List Tree
  returningList : List Tree

structure DeleteStmt where
  relname : String
  usingClause : List Tree
  whereClause : Tree
  returningList : List Tree

inductive Dml where
  | insert (stmt : InsertStmt)
  | update (stmt : UpdateStmt)
  | delete (stmt : DeleteStmt)

/-- A statement; `PREPARE` of something else than these is like any other statement. -/
inductive Stmt where
  | dml (stmt : Dml)
  | prepare (name : String) (argtypes : List Tree) (query : Dml)
  | execute (name : String) (params : List Tree)
  | other

/-- Walk the indirection and the value of each target. -/
def walkTargets : List ResTarget → Ctx → List ResTarget × Ctx
  | [], ctx => ([], ctx)
  | res :: rest, ctx =>
      let (indirection, ctx) := walkItems res.indirection ctx
      let (val, ctx) := walker res.val ctx
      let (rest, ctx) := walkTargets rest ctx
      ({ res with indirection := indirection, val := val } :: rest, ctx)

/-- Walk the rows of a VALUES. -/
def walkRows : List (List Tree) → Ctx → List (List Tree) × Ctx
  | [], ctx => ([], ctx)
  | row :: rest, ctx =>
      let (row, ctx) := walkItems row ctx
      let (rest, ctx) := walkRows rest ctx
      (row :: rest, ctx)

def walkSource (source : InsertSource) (ctx : Ctx) : InsertSource × Ctx :=
  let (front, ctx) := walkItems source.front ctx
  let (valuesLists, ctx) := walkRows source.valuesLists ctx
  let (back, ctx) := walkItems source.back ctx
  (⟨front, valuesLists, back⟩, ctx)

section

variable (master : Master)

/-- What `snprintf` leaves in `query[1024]`. -/
def selectQuery (expression : String) : List UInt8 := ("SELECT " ++ expression).toUTF8.toList.take 1023

/-- `makeStringConstFromQuery`, or `NULL`. -/
def makeStringConstFromQuery (expression : String) : Tree :=
  match master.select (selectQuery expression) with
  | some str => .const (.string str)
  | none => .null

/-- What a time column gets for its default. -/
def makeDefault (attr : TSAttr) (ctx : Ctx) : Tree × Ctx :=
  if ctx.rewriteToParams then ctx.makeTsExpr else (makeStringConstFromQuery master attr.adsrc, ctx)

/-- A value for each of the columns: the default of a time column, and DEFAULT for another. -/
def fillColumns : List TSAttr → Ctx → List Tree × Ctx
  | [], ctx => ([], ctx)
  | attr :: attrs, ctx =>
      if attr.useTimestamp then
        let (val, ctx) := makeDefault master attr ctx
        let (vals, ctx) := fillColumns attrs ctx.setRewrite
        (val :: vals, ctx)
      else
        let (vals, ctx) := fillColumns attrs ctx
        (.default :: vals, ctx)

/-- A value that is given for a column. -/
def replaceDefault (attr : TSAttr) (val : Tree) (ctx : Ctx) : Tree × Ctx :=
  if attr.useTimestamp && val.isDefault then
    let (val, ctx) := makeDefault master attr ctx
    (val, ctx.setRewrite)
  else (val, ctx)

/-- A row of `INSERT INTO rel VALUES (...)`.  `none`: with more values than columns the array of columns
is read past its end. -/
def rewriteRow : List TSAttr → List Tree → Ctx → Option (List Tree × Ctx)
  | attrs, [], ctx => some (fillColumns master attrs ctx)
  | [], _ :: _, _ => none
  | attr :: attrs, val :: vals, ctx =>
      let (val, ctx) := replaceDefault master attr val ctx
      match rewriteRow attrs vals ctx with
      | none => none
      | some (vals, ctx) => some (val :: vals, ctx)

def rewriteRows (attrs : List TSAttr) : List (List Tree) → Ctx → Option (List (List Tree) × Ctx)
  | [], ctx => some ([], ctx)
  | row :: rows, ctx =>
      match rewriteRow master attrs row ctx with
      | none => none
      | some (row, ctx) =>
          match rewriteRows attrs rows ctx with
          | none => none
          | some (rows, ctx) => some (row :: rows, ctx)

/-- The time columns that are not in the column list. -/
def appendColumns (attrs : List TSAttr) (cols : List ResTarget) : List TSAttr :=
  attrs.filter fun attr => attr.useTimestamp && !cols.any fun col => attr.attrname == col.name

/-- The loop of `forboth`.  `none`: a column that the table does not have is looked up past the end of the
array. -/
def rewriteListed (attrs : List TSAttr) : List String → List Tree → Ctx → Option (List Tree × Ctx)
  | [], vals, ctx => some (vals, ctx)
  | _ :: _, [], ctx => some ([], ctx)
  | name :: names, val :: vals, ctx =>
      match attrs.find? fun attr => attr.attrname == name with
      | none => none
      | some attr =>
          let (val, ctx) := replaceDefault master attr val ctx
          match rewriteListed attrs names vals ctx with
          | none => none
          | some (vals, ctx) => some (val :: vals, ctx)

/-- The defaults of the columns that have been appended. -/
def appendDefaults : List TSAttr → Ctx → List Tree × Ctx
  | [], ctx => ([], ctx)
  | attr :: attrs, ctx =>
      let (val, ctx) := makeDefault master attr ctx
      let (vals, ctx) := appendDefaults attrs ctx
      (val :: vals, ctx)

/-- The rows of `INSERT INTO rel(col1, col2) VALUES (...)`.  `none` for more than one row too, since
`append_columns_list` is freed with each. -/
def rewriteListedRows (attrs appended : List TSAttr) (names : List String) :
    List (List Tree) → Ctx → Option (List (List Tree) × Ctx)
  | [], ctx => some ([], ctx)
  | [row], ctx =>
      match rewriteListed master attrs names row ctx with
      | none => none
      | some (row, ctx) =>
          let (defaults, ctx) := appendDefaults master appended ctx
          some ([row ++ defaults], ctx)
  | _ :: _ :: _, _ => none

/-- `col->name = attrname`. -/
def appendedTarget (attr : TSAttr) : ResTarget := ⟨attr.attrname, [], .null⟩

/-- `rewrite_timestamp_insert`: the statement, the context and what is returned.  `rewrite` of the context
is kept up to date where the source has a variable of its own. -/
def rewriteTimestampInsert (stmt : InsertStmt) (ctx : Ctx) : Option (InsertStmt × Ctx × Bool) :=
  match stmt.selectStmt with
  | none =>
      match master.relcache stmt.relname with
      | none => some (stmt, ctx, false)
      | some attrs =>
          let (values, ctx) := fillColumns master attrs ctx
          if ctx.rewrite then
            some ({ stmt with selectStmt := some ⟨[], [values], []⟩ }, ctx, true)
          else some (stmt, ctx, false)
  | some source =>
      let (source, ctx) := walkSource source ctx
      let stmt := { stmt with selectStmt := some source }
      if source.valuesLists.isEmpty then some (stmt, ctx, ctx.rewrite)
      else
        match master.relcache stmt.relname with
        | none => some (stmt, ctx, false)
        | some attrs =>
            if stmt.cols.isEmpty then
              match rewriteRows master attrs source.valuesLists ctx with
              | none => none
              | some (rows, ctx) =>
                  some ({ stmt with selectStmt := some { source with valuesLists := rows } }, ctx,
                    ctx.rewrite)
            else
              let appended := appendColumns attrs stmt.cols
              let cols := stmt.cols ++ appended.map appendedTarget
              let ctx := if appended.isEmpty then ctx else ctx.setRewrite
              match rewriteListedRows master attrs appended (cols.map ResTarget.name)
                  source.valuesLists ctx with
              | none => none
              | some (rows, ctx) =>
                  some ({ stmt with
                    cols := cols, selectStmt := some { source with valuesLists := rows } }, ctx,
                    ctx.rewrite)

/-- `col = DEFAULT` in an UPDATE.  `none`: the columns of the table are not known. -/
def rewriteSets (relcache : Option (List TSAttr)) :
    List ResTarget → Ctx → Option (List ResTarget × Ctx)
  | [], ctx => some ([], ctx)
  | res :: rest, ctx =>
      if res.val.isDefault then
        match relcache with
        | none => none
        | some attrs =>
            let (val, ctx) :=
              match attrs.find? fun attr => attr.attrname == res.name with
              | none => (res.val, ctx)
              | some attr => replaceDefault master attr res.val ctx
            match rewriteSets relcache rest ctx with
            | none => none
            | some (rest, ctx) => some ({ res with val := val } :: rest, ctx)
      else
        match rewriteSets relcache rest ctx with
        | none => none
        | some (rest, ctx) => some (res :: rest, ctx)

/-- `rewrite_timestamp_update`.  Where the columns of the table are not known what has been rewritten so
far does not matter, since `rewrite_timestamp` then returns `NULL`. -/
def rewriteTimestampUpdate (stmt : UpdateStmt) (ctx : Ctx) : UpdateStmt × Ctx × Bool :=
  let (targetList, ctx) := walkTargets stmt.targetList ctx
  let (whereClause, ctx) := walkBelow stmt.whereClause ctx
  let (fromClause, ctx) := walkItems stmt.fromClause ctx
  let stmt := { stmt with whereClause := whereClause, fromClause := fromClause }
  match rewriteSets master (master.relcache stmt.relname) targetList ctx with
  | none => ({ stmt with targetList := targetList }, ctx, false)
  | some (targetList, ctx) => ({ stmt with targetList := targetList }, ctx, ctx.rewrite)

/-- The part of `rewrite_timestamp` for a DELETE. -/
def rewriteTimestampDelete (stmt : DeleteStmt) (ctx : Ctx) : DeleteStmt × Ctx × Bool :=
  let (usingClause, ctx) := walkItems stmt.usingClause ctx
  let (whereClause, ctx) := walkBelow stmt.whereClause ctx
  ({ stmt with usingClause := usingClause, whereClause := whereClause }, ctx, ctx.rewrite)

def rewriteDml (ctx : Ctx) : Dml → Option (Dml × Ctx × Bool)
  | .insert stmt =>
      match rewriteTimestampInsert master stmt ctx with
      | none => none
      | some (stmt, ctx, rewrite) => some (.insert stmt, ctx, rewrite)
  | .update stmt =>
      let (stmt, ctx, rewrite) := rewriteTimestampUpdate master stmt ctx
      some (.update stmt, ctx, rewrite)
  | .delete stmt =>
      let (stmt, ctx, rewrite) := rewriteTimestampDelete stmt ctx
      some (.delete stmt, ctx, rewrite)

/-- The context at first. -/
def Ctx.init (rewriteToParams : Bool) : Ctx := ⟨rewriteToParams, 0, 0, false⟩

/-- The statement that has been rewritten: `number` is what the `k`-th parameter added is numbered, and
`numTsparams` that of the message, if there is one. -/
structure Rewritten where
  stmt : Stmt
  number : Nat → Nat
  numTsparams : Option Nat

/-- The parameters are numbered, or the constant is made. -/
def finish (message : Option Nat) (ctx : Ctx) (stmt : Stmt) : Option Rewritten :=
  match ctx.rewriteToParams, message with
  | true, some _ =>
      let argtypes := List.replicate ctx.added (Tree.systemType "timestamptz")
      let stmt := match stmt with
        | .prepare name types query => .prepare name (types ++ argtypes) query
        | stmt => stmt
      some ⟨stmt, fun k => ctx.numParams + 1 + k, some ctx.added⟩
  | _, _ =>
      match master.currentTimestamp with
      | none => none
      | some _ => some ⟨stmt, fun _ => 0, message⟩

/-- `rewrite_timestamp` in replication mode.  `message` is `num_tsparams` of the message, if there is one.
The inner `none` is `NULL`; the outer one is behaviour that C leaves undefined. -/
def rewriteTimestamp (rewriteToParams : Bool) (message : Option Nat) (stmt : Stmt) :
    Option (Option Rewritten) :=
  match stmt with
  | .dml query =>
      match rewriteDml master (.init rewriteToParams) query with
      | none => none
      | some (query, ctx, rewrite) =>
          some (if rewrite then finish master message ctx (.dml query) else none)
  | .prepare name argtypes query =>
      match rewriteDml master (.init true) query with
      | none => none
      | some (query, ctx, rewrite) =>
          some (if rewrite then finish master message ctx (.prepare name argtypes query) else none)
  | .execute name params =>
      let (params, ctx) := walkItems params (.init rewriteToParams)
      let consts := List.replicate (message.getD 0) (Tree.node .tsConst [])
      some (if ctx.rewrite || decide (0 < message.getD 0) then
        finish master message ctx (.execute name (params ++ consts)) else none)
  | .other => some none

end

/-! ### The cases -/

section

variable {master : Master} {ctx ctx₁ : Ctx} {rewrite : Bool} {toParams : Bool} {message : Option Nat}
  {attrs : List TSAttr} {val : Tree} {vals vals' row : List Tree} {rows rows' : List (List Tree)}

theorem rewriteRow_cons (h : rewriteRow master attrs (val :: vals) ctx = some (vals', ctx₁)) :
    ∃ attr rest new, attrs = attr :: rest ∧ vals' = (replaceDefault master attr val ctx).1 :: new ∧
      rewriteRow master rest vals (replaceDefault master attr val ctx).2 = some (new, ctx₁) := by
  cases attrs with
  | nil => cases h
  | cons attr rest =>
    simp only [rewriteRow] at h
    split at h
    · cases h
    · next hrest =>
      cases h
      exact ⟨attr, rest, _, rfl, rfl, hrest⟩

theorem rewriteRows_cons (h : rewriteRows master attrs (row :: rows) ctx = some (rows', ctx₁)) :
    ∃ row' new middle, rows' = row' :: new ∧ rewriteRow master attrs row ctx = some (row', middle) ∧
      rewriteRows master attrs rows middle = some (new, ctx₁) := by
  simp only [rewriteRows] at h
  split at h
  · cases h
  · next hrow =>
    split at h
    · cases h
    · next hrest =>
      cases h
      exact ⟨_, _, _, rfl, hrow, hrest⟩

theorem rewriteListed_cons {name : String} {names : List String}
    (h : rewriteListed master attrs (name :: names) (val :: vals) ctx = some (vals', ctx₁)) :
    ∃ attr new, (attrs.find? fun attr => attr.attrname == name) = some attr ∧
      vals' = (replaceDefault master attr val ctx).1 :: new ∧
      rewriteListed master attrs names vals (replaceDefault master attr val ctx).2 = some (new, ctx₁) := by
  simp only [rewriteListed] at h
  split at h
  · cases h
  · next attr hfind =>
    split at h
    · cases h
    · next hrest =>
      cases h
      exact ⟨attr, _, hfind, rfl, hrest⟩

theorem rewriteDml_cases {query query' : Dml}
    (h : rewriteDml master ctx query = some (query', ctx₁, rewrite)) :
    (∃ stmt stmt', query = .insert stmt ∧ query' = .insert stmt' ∧
        rewriteTimestampInsert master stmt ctx = some (stmt', ctx₁, rewrite)) ∨
      (∃ stmt stmt', query = .update stmt ∧ query' = .update stmt' ∧
        rewriteTimestampUpdate master stmt ctx = (stmt', ctx₁, rewrite)) ∨
      ∃ stmt stmt', query = .delete stmt ∧ query' = .delete stmt' ∧
        rewriteTimestampDelete stmt ctx = (stmt', ctx₁, rewrite) := by
  cases query with
  | insert stmt =>
    simp only [rewriteDml] at h
    split at h
    · cases h
    · next hinsert =>
      cases h
      exact Or.inl ⟨stmt, _, rfl, rfl, hinsert⟩
  | update stmt =>
    cases h
    exact Or.inr (Or.inl ⟨stmt, _, rfl, rfl, rfl⟩)
  | delete stmt =>
    cases h
    exact Or.inr (Or.inr ⟨stmt, _, rfl, rfl, rfl⟩)

theorem rewriteTimestamp_dml {query : Dml} {out : Option Rewritten}
    (h : rewriteTimestamp master toParams message (.dml query) = some out) :
    ∃ query' ctx rewrite, rewriteDml master (.init toParams) query = some (query', ctx, rewrite) ∧
      out = if rewrite then finish master message ctx (.dml query') else none := by
  simp only [rewriteTimestamp] at h
  split at h
  · cases h
  · next hrewrite =>
    cases h
    exact ⟨_, _, _, hrewrite, rfl⟩

/-- The calls below a PREPARE become parameters, whatever the mode is. -/
theorem rewriteTimestamp_prepare {name : String} {argtypes : List Tree} {query : Dml}
    {out : Option Rewritten}
    (h : rewriteTimestamp master toParams message (.prepare name argtypes query) = some out) :
    ∃ query' ctx rewrite, rewriteDml master (.init true) query = some (query', ctx, rewrite) ∧
      out = if rewrite then finish master message ctx (.prepare name argtypes query') else none := by
  simp only [rewriteTimestamp] at h
  split at h
  · cases h
  · next hrewrite =>
    cases h
    exact ⟨_, _, _, hrewrite, rfl⟩

end

end Timestamp

end PgPool
