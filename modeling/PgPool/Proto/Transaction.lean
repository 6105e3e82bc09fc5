import PgPool.Query.SendAndWait

/-!
# Internal transactions and ReadyForQuery

The commands that pgpool issues on its own (`do_command`), the internal transactions around them
(`pool_process_query.c`), and `ReadyForQuery` of `pool_proto_modules.c`, which ends every query.
-/

namespace PgPool

/-- How a backend answers to `do_command`: whether the command completes, the transaction state
afterwards, and whether a deadlock was reported. -/
structure CommandReply where
  complete : Bool
  status : TState
  deadlock : Bool

/-- What the world outside answers while one message is processed.  An absent `CommandReply` stands
for a lost connection, a FATAL error or an unexpected message. -/
structure Answers where
  lookups : Lookups
  /-- The query cache is enabled and has the result of the SELECT. -/
  cacheHit : Bool
  /-- `pool_do_parallel_query` has executed the query. -/
  parallelDone : Bool
  /-- `rewrite_timestamp`. -/
  rewritten : Option String
  numTsparams : Nat
  /-- `bind_rewrite_timestamp`. -/
  boundParams : Option (List String)
  beginReply : NodeId → Option CommandReply
  /-- `need_insert_lock` for an INSERT. -/
  needLock : Bool
  lockFails : Bool
  /-- The commands of `insert_lock`. -/
  lockReplies : List (NodeId × CommandReply)
  /-- The Sync that Parse sends is answered by something else than ReadyForQuery. -/
  syncFails : Bool
  /-- A deadlock is reported for Parse. -/
  deadlock : Bool
  /-- `check_errors` for Execute. -/
  specificError : Bool
  /-- `parse_before_bind` reads a ParseComplete. -/
  parsed : Bool
  /-- `find_victim_nodes` finds some. -/
  victims : Bool
  commitReply : NodeId → Option CommandReply
  standbyReply : NodeId → Option CommandReply
  /-- The states in ReadyForQuery. -/
  status : NodeId → TState

/-- Everything goes well, and the transaction state is as given. -/
def Answers.smooth (status : NodeId → TState) : Answers where
  lookups := ⟨fun _ => false, fun _ => false, .readCommitted, fun _ => 0⟩
  cacheHit := false
  parallelDone := false
  rewritten := none
  numTsparams := 0
  boundParams := none
  beginReply := fun _ => some ⟨true, .T, false⟩
  needLock := false
  lockFails := false
  lockReplies := []
  syncFails := false
  deadlock := false
  specificError := false
  parsed := true
  victims := false
  commitReply := fun _ => some ⟨true, .I, false⟩
  standbyReply := fun _ => some ⟨true, .I, false⟩
  status := status

/-- The transaction state that `do_command` infers in protocol V2 from a command's tag. -/
def Command.v2State : Command → Option TState
  | .beginInternal => some .T
  | .commitInternal | .commitStandby => some .I
  | .lockTable => none

namespace Session

/-- `do_command` on a node, up to what it returns.  With `no_ready_for_query` the state that
ReadyForQuery carries is left for the caller to read. -/
def doCommand (i : NodeId) (command : Command) (reply : CommandReply) (noReadyForQuery : Bool)
    (s : Session) : Session :=
  let s := s.emit (.command i command reply.status)
  match s.conn.major, command.v2State with
  | .v2, some t => if reply.complete then s.setTstate [i] fun _ => t else s
  | .v2, none => s
  | .v3, _ => if noReadyForQuery then s else s.setTstate [i] fun _ => reply.status

section

variable (env : Setup) (ans : Answers)

/-- The loop of `start_internal_transaction`; the flag tells whether it returns `POOL_CONTINUE`. -/
def startInternalLoop : List NodeId → Session → Session × Bool
  | [], s => (s, true)
  | i :: rest, s =>
      if s.validBackend env i && !s.conn.internalTransactionStarted i && s.tstate i == .I then
        match ans.beginReply i with
        | none => (s, false)
        | some reply =>
            let s := s.doCommand i .beginInternal reply false
            if reply.deadlock then (s, false)
            else startInternalLoop rest (s.setMark i true).unsetWritingTransaction
      else startInternalLoop rest s

/-- `start_internal_transaction`. -/
def startInternalTransaction (node : Node) (s : Session) : Session × Bool :=
  if isInternalTransactionNeeded node then startInternalLoop env ans env.nodes s else (s, true)

/-- The COMMIT of `end_internal_transaction` on one node. -/
def commitInternal (i : NodeId) (s : Session) : Option Session :=
  match ans.commitReply i with
  | none => none
  | some reply =>
      if reply.deadlock then none
      else some ((s.doCommand i .commitInternal reply true).setMark i false)

/-- The loop of `end_internal_transaction` over the nodes other than the master. -/
def endInternalLoop : List NodeId → Session → Option Session
  | [], s => some s
  | i :: rest, s =>
      if s.validBackend env i && i != s.masterNodeId env && s.tstate i != .I &&
          s.conn.internalTransactionStarted i then
        match commitInternal ans i s with
        | none => none
        | some s => endInternalLoop rest s
      else endInternalLoop rest s

/-- `end_internal_transaction`: the master commits last, and is not tested for `VALID_BACKEND`. -/
def endInternalTransaction (s : Session) : Option Session :=
  match endInternalLoop env ans env.nodes s with
  | none => none
  | some s =>
      let i := s.masterNodeId env
      if s.tstate i != .I && s.conn.internalTransactionStarted i then commitInternal ans i s
      else some s

/-- One command of `insert_lock`: they go to the master and the other valid nodes. -/
def lockCommand (s : Session) (p : NodeId × CommandReply) : Session :=
  if s.validBackend env p.1 || p.1 == s.masterNodeId env then s.doCommand p.1 .lockTable p.2 false
  else s

/-- `insert_lock`, which does nothing in protocol V2.  Row locks are taken by `do_query`, which
leaves the transaction state alone; `lockReplies` has the other commands. -/
def insertLock (s : Session) : Option Session :=
  match s.conn.major with
  | .v2 => some s
  | .v3 => if ans.lockFails then none else some (ans.lockReplies.foldl (lockCommand env) s)

/-- `need_insert_lock`. -/
def needInsertLock (node : Node) : Bool := node.tag == .insertStmt && ans.needLock

/-- The node whose transaction state the client is told. -/
def stateNode : NodeId := if env.masterSlaveMode then env.primary else env.realMasterNodeId

/-- `close_standby_transactions`. -/
def closeStandbyLoop : List NodeId → Session → Option Session
  | [], s => some s
  | i :: rest, s =>
      if s.tstate i == .T && env.backendStatus i == .up && i != stateNode env then
        match ans.standbyReply i with
        | none => none
        | some reply =>
            if reply.deadlock then none
            else closeStandbyLoop rest (s.doCommand i .commitStandby reply false)
      else closeStandbyLoop rest s

/-! ## ReadyForQuery -/

/-- The branch for nodes that report different numbers of affected rows. -/
def abortMismatch (s : Session) : Option Session :=
  if s.mismatchNtuples && s.conn.major == .v3 then
    if env.failoverIfAffectedTuplesMismatch && ans.victims then none
    else
      some (((s.validNodes env).foldl (fun s i => s.emit (.errorCommand i)) s).setMismatchNtuples
        false)
  else some s

/-- The states that the nodes report, in protocol V3 only. -/
def readStates (s : Session) : Session :=
  match s.conn.major with
  | .v2 => s
  | .v3 => (s.emit (.reported (s.validNodes env) ans.status)).setTstate (s.validNodes env) ans.status

/-- The flags that a successful statement leaves behind. -/
def noteStatement (c : QueryContext) (s : Session) : Option Session :=
  if isStartTransactionQuery c.parseTree then
    some s.forgetTransaction
  else if isSetTransactionSerializable c.parseTree then
    some (s.setTransactionIsolation .serializable)
  else if is2pcTransactionQuery c.parseTree then closeStandbyLoop env ans env.nodes s
  else if !isSelectQuery env.toPoolConfig c.parseTree c.originalQuery then
    some s.setWritingTransaction
  else some s

/-- The statement that ReadyForQuery is about: that of the current query, once a command of the
session has succeeded. -/
def readyStatement (s : Session) : Option QueryContext :=
  if s.commandSuccess then s.currentQuery else none

/-- The history and the in-progress flag. -/
def noteReady (s : Session) : Option Session :=
  if s.inProgress && s.commandSuccess then
    match s.currentQuery with
    | none => some s.unsetQueryInProgress
    | some c => (noteStatement env ans c s).map unsetQueryInProgress
  else some s

/-- The query context is destroyed unless an extended query message is being processed or the
statement is a PREPARE. -/
def releaseContext (node : Option QueryContext) (s : Session) : Session :=
  if s.doingExtendedQueryMessage then s
  else
    match s.queryContext, node with
    | none, _ => s
    | some qc, none => s.queryContextDestroy qc
    | some qc, some c => if c.parseTree.tag = .prepareStmt then s else s.queryContextDestroy qc

/-- `ReadyForQuery`. -/
def readyForQuery (s : Session) : Option Session :=
  match abortMismatch env ans (s.emit (.ready (s.validNodes env))) with
  | none => none
  | some s =>
      match (if s.allowCloseTransaction then endInternalTransaction env ans s else some s) with
      | none => none
      | some s =>
          let s := readStates env ans s
          match noteReady env ans s with
          | none => none
          | some t => some (t.releaseContext s.readyStatement)

end

end Session

end PgPool
