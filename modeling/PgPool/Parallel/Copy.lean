import PgPool.Parallel.Rules

/-!
# `COPY FROM STDIN` in parallel mode

`check_copy_from_stdin` takes the table, the delimiter and the null text out of the statement;
`CopyDataRows` takes the key out of each `CopyData` message of protocol V3 and sends the message to the
node of the key.
-/

namespace PgPool.Parallel

/-! ## The statement -/

/-- A `CopyStmt` that reads from the frontend. -/
structure CopyStmt where
  schemaname : Option String
  relname : String
  attlist : Option (List String)
  options : List (String × List Char)

/-- The variables `copy_schema`, `copy_table`, `copy_delimiter` and `copy_null`. -/
structure CopyVars where
  copySchema : Option String
  copyTable : Option String
  copyDelimiter : Char
  copyNull : List Char
  deriving DecidableEq

/-- The loop of `check_copy_from_stdin` over the options. -/
def lookUp : List (String × List Char) → CopyVars → CopyVars
  | [], vars => vars
  | (name, value) :: options, vars =>
    if name = "delimiter" then lookUp options { vars with copyDelimiter := value.headD '\x00' }
    else if name = "null" then lookUp options { vars with copyNull := value }
    else lookUp options vars

/-- `check_copy_from_stdin`. -/
def checkCopyFromStdin (stmt : CopyStmt) : CopyVars :=
  lookUp stmt.options {
    copySchema := some (stmt.schemaname.getD "public")
    copyTable := some stmt.relname
    copyDelimiter := '\t'
    copyNull := ['\\', 'N'] }

/-! ## The key -/

/-- The loop of `parse_copy_data`, which leaves out the last character: the number of the field it
stops in, and what it has collected of it. -/
def scanCopyData (delimiter : Char) (colId : Nat) : List Char → Nat → List Char → Nat × List Char
  | [], field, str => (field, str)
  | [_], field, str => (field, str)
  | c :: d :: rest, field, str =>
    if c = '\\' ∧ rest ≠ [] then
      if d = delimiter then scanCopyData delimiter colId rest field (str ++ [d])
      else scanCopyData delimiter colId (d :: rest) field (str ++ [c])
    else if c = delimiter then
      if field = colId then (field, str) else scanCopyData delimiter colId (d :: rest) (field + 1) []
    else scanCopyData delimiter colId (d :: rest) field (str ++ [c])

/-- `parse_copy_data`, whose result is a string. -/
def parseCopyData (buf : List Char) (delimiter : Char) (colId : Nat) : Option (List Char) :=
  let (field, str) := scanCopyData delimiter colId buf 0 []
  if field = colId then some (str.takeWhile (· ≠ '\x00')) else none

/-! ## The messages -/

/-- A message of the frontend: its kind and its contents. -/
structure CopyMessage where
  kind : Char
  contents : List Char
  deriving DecidableEq

/-- The line that ends the data. -/
def endOfData : List Char := ['\\', '.', '\n']

/-- How `CopyDataRows` is left.
* `finished`: a message other than `CopyData` has gone to all nodes.
* `returned`: `POOL_CONTINUE` in the middle of the data.
* `aborted`: `POOL_END` or `exit`, after both of which the child ends.
* `waiting`: there is no further message. -/
inductive CopyEnd where
  | finished | returned | aborted | waiting
  deriving DecidableEq

/-- What each node has been sent. -/
abbrev Sent := Nat → List CopyMessage

def Sent.toNode (s : Sent) (i : Nat) (m : CopyMessage) : Sent :=
  fun j => if j = i then s j ++ [m] else s j

/-- To every node that can be used. -/
def Sent.toAll (s : Sent) (db : SystemDb) (m : CopyMessage) : Sent :=
  fun j => if j < db.numBackends ∧ db.validBackend j = true then s j ++ [m] else s j

/-- `CopyDataRows` for `copyin` in protocol V3. -/
def copyDataRows (db : SystemDb) (vars : CopyVars) (info : Option DistDefInfo) :
    List CopyMessage → Sent → CopyEnd × Sent
  | [], s => (.waiting, s)
  | m :: ms, s =>
    match info with
    | some r =>
      if m.kind = 'd' then
        if m.contents = [] then (.returned, s)
        else if m.contents = endOfData then copyDataRows db vars info ms (s.toAll db m)
        else
          match parseCopyData m.contents vars.copyDelimiter r.distKeyColId with
          | none => (.aborted, s)
          | some key =>
            if key = vars.copyNull then (.aborted, s)
            else
              match db.nodeOf (db.poolGetId r key) with
              | none => (.aborted, s)
              | some id => copyDataRows db vars info ms (s.toNode id m)
      else (.finished, s.toAll db m)
    | none =>
      if m.kind = 'd' then copyDataRows db vars info ms (s.toAll db m) else (.finished, s.toAll db m)

/-- A `COPY` in a session.  Only `SimpleQuery` calls `check_copy_from_stdin`; a statement of the extended
protocol finds what an earlier one has left, `prev`. -/
def copyVars (simple : Bool) (prev : CopyVars) (stmt : CopyStmt) : CopyVars :=
  if simple then checkCopyFromStdin stmt else prev

/-- The messages that follow a `COPY` statement. -/
def runCopy (db : SystemDb) (dbname : String) (vars : CopyVars) (ms : List CopyMessage) :
    CopyEnd × Sent :=
  copyDataRows db vars (db.poolGetDistDefInfo dbname vars.copySchema vars.copyTable) ms fun _ => []

end PgPool.Parallel
