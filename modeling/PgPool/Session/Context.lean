import PgPool.Config
import PgPool.Parser.Nodes

/-!
# Session and query contexts

The state of a child that serves a client: `POOL_SESSION_CONTEXT`, the query contexts it has
allocated, the connections to the backends, and the macros of `pool.h` that read them.

Query contexts are referred to by number.  A destroyed context keeps its content here and is
counted in `destroyed`, so that a dangling reference and a second `free` can be seen.
-/

namespace PgPool

/-- The address of a query context. -/
abbrev QcId := Nat

/-- `where_to_send`. -/
abbrev NodeMap := NodeId → Bool

/-- `POOL_QUERY_STATE`. -/
inductive QueryState where
  | unparsed | parseComplete | bindComplete | executeComplete
  deriving DecidableEq, Repr

/-- The transaction state that a backend reports in ReadyForQuery. -/
inductive TState where
  | I | T | E
  deriving DecidableEq, Repr

/-- The major number of the frontend/backend protocol. -/
inductive Proto where
  | v2 | v3
  deriving DecidableEq, Repr

/-- `POOL_TRANSACTION_ISOLATION`. -/
inductive Isolation where
  | unknown | readCommitted | serializable
  deriving DecidableEq, Repr

/-- `POOL_QUERY_CONTEXT`. -/
structure QueryContext where
  originalQuery : String
  rewrittenQuery : Option String
  parseTree : Node
  whereToSend : NodeMap
  virtualMasterNodeId : NodeId
  queryState : NodeId → QueryState

/-- `calloc` in `pool_init_query_context`. -/
def QueryContext.zeroed : QueryContext where
  originalQuery := ""
  rewrittenQuery := none
  parseTree := .null
  whereToSend := fun _ => false
  virtualMasterNodeId := 0
  queryState := fun _ => .unparsed

/-- The context with another node map. -/
def QueryContext.setMap (c : QueryContext) (map : NodeMap) : QueryContext :=
  { c with whereToSend := map }

/-- The kinds of sent messages: `'P'` for Parse, `'B'` for Bind, `'Q'` for a SQL PREPARE. -/
inductive MsgKind where
  | P | B | Q
  deriving DecidableEq, Repr

/-- What a Describe or Close names: `'S'` a statement, otherwise a portal. -/
inductive Target where
  | statement | portal
  deriving DecidableEq, Repr

/-- The body of a sent message. -/
inductive Contents where
  | parse (name stmt : String)
  | bind (portal stmtName : String) (params : List String)
  | query (string : String)
  deriving DecidableEq, Repr

/-- The address of a sent message. -/
abbrev MsgId := Nat

/-- `POOL_SENT_MESSAGE`, with the address it has been allocated at: the uncompleted message of a
Close is an entry of the list itself, that of a Parse or Bind a new message. -/
structure SentMessage where
  id : MsgId
  kind : MsgKind
  contents : Contents
  numTsparams : Nat
  name : String
  queryContext : QcId
  deriving DecidableEq, Repr

/-- The key under which `pool_get_sent_message` looks a message up. -/
def SentMessage.key (m : SentMessage) : MsgKind × String := (m.kind, m.name)

/-- `POOL_SESSION_CONTEXT`.  `messageList` is the used part of the array. -/
structure SessionContext where
  inProgress : Bool
  doingExtendedQueryMessage : Bool
  commandSuccess : Bool
  writingTransaction : Bool
  failedTransaction : Bool
  skipReadingFromBackends : Bool
  ignoreTillSync : Bool
  transactionIsolation : Isolation
  queryContext : Option QcId
  uncompletedMessage : Option SentMessage
  messageList : List SentMessage
  loadBalanceNodeId : NodeId
  mismatchNtuples : Bool
  resetContext : Bool

/-- The static `session_context_d`, as it is before `pool_init_session_context` and after
`pool_session_context_destroy`. -/
def SessionContext.zeroed : SessionContext where
  inProgress := false
  doingExtendedQueryMessage := false
  commandSuccess := false
  writingTransaction := false
  failedTransaction := false
  skipReadingFromBackends := false
  ignoreTillSync := false
  transactionIsolation := .unknown
  queryContext := none
  uncompletedMessage := none
  messageList := []
  loadBalanceNodeId := 0
  mismatchNtuples := false
  resetContext := false

/-- A message to a backend.  `errorPortal` is the Execute of a portal that does not exist, by which
pgpool aborts a transaction. -/
inductive BackendMsg where
  | query (string : String)
  | parse (name stmt : String)
  | bind (portal stmtName : String) (params : List String)
  | describe (target : Target) (name : String)
  | execute (portal : String)
  | errorPortal
  | close (target : Target) (name : String)
  deriving DecidableEq, Repr

/-- The messages that `SimpleForwardToBackend` passes on, but for Sync. -/
inductive ForwardedMsg where
  | functionCall | copyData | copyDone | copyFail | flush
  deriving DecidableEq, Repr

/-- The commands that pgpool issues on its own through `do_command`. -/
inductive Command where
  | beginInternal
  | commitInternal
  | commitStandby
  | lockTable
  deriving DecidableEq, Repr

/-- What a completed command has done to the transaction of the nodes. -/
inductive TxnEffect where
  | unchanged | began | ended
  deriving DecidableEq, Repr

/-- What happens on the backend connections.
* `sent`: a message goes to a node, on behalf of a query context.
* `synced`: a Sync goes to the nodes.
* `forwarded`: `SimpleForwardToBackend` with another message.
* `errorCommand`: a node is sent something that aborts its transaction.
* `command`: `do_command` on a node, with the transaction state that it reports.
* `routed`: the node map for a Parse or Bind that is being attempted.
* `completed`: the nodes report that they have executed a Parse, a Bind or a SQL PREPARE.
* `tagged`: the nodes report the completion of a command.
* `ready`: a ReadyForQuery is read from the nodes.
* `reported`: the transaction states that the nodes' ReadyForQuery carries. -/
inductive Action where
  | sent (node : NodeId) (message : BackendMsg) (context : QcId)
  | synced (nodes : List NodeId)
  | forwarded (message : ForwardedMsg) (nodes : List NodeId)
  | errorCommand (node : NodeId)
  | command (node : NodeId) (command : Command) (status : TState)
  | routed (message : SentMessage) (map : NodeMap)
  | completed (message : SentMessage) (nodes : List NodeId)
  | tagged (nodes : List NodeId) (effect : TxnEffect)
  | ready (nodes : List NodeId)
  | reported (nodes : List NodeId) (status : NodeId → TState)

/-- `POOL_CONNECTION_POOL`: the connections to the backends, kept in the pool between sessions.
`trace` records what happened on them, the latest first. -/
structure Conn where
  major : Proto
  tstate : NodeId → TState
  internalTransactionStarted : NodeId → Bool
  trace : List Action

/-- `pool_open` clears the connection. -/
def Conn.opened (major : Proto) : Conn where
  major := major
  tstate := fun _ => .I
  internalTransactionStarted := fun _ => false
  trace := []

/-- What the session-level functions read and write: the session context, the query contexts and
sent messages that have been allocated, the backend connections, and the static
`allow_close_transaction`, which outlives a session. -/
structure Session extends SessionContext where
  contexts : QcId → QueryContext
  nextContext : QcId
  destroyed : QcId → Nat
  nextMessage : MsgId
  conn : Conn
  allowCloseTransaction : Bool

namespace Session

variable (env : Setup) (s : Session)

/-- `pool_virtual_master_db_node_id`, which is `MASTER_NODE_ID`. -/
def masterNodeId : NodeId :=
  match s.queryContext with
  | some qc => (s.contexts qc).virtualMasterNodeId
  | none => env.realMasterNodeId

/-- `pool_is_node_to_be_sent_in_current_query`. -/
def isNodeToBeSentInCurrentQuery (i : NodeId) : Bool :=
  if env.rawMode then i == env.realMasterNodeId
  else
    match s.inProgress, s.queryContext with
    | true, some qc => (s.contexts qc).whereToSend i
    | _, _ => true

/-- `VALID_BACKEND`. -/
def validBackend (i : NodeId) : Bool :=
  (env.rawMode && i == env.realMasterNodeId) ||
    (s.isNodeToBeSentInCurrentQuery env i && env.isMyUp i)

/-- The nodes for which a loop over the backends does not `continue` at `VALID_BACKEND`. -/
def validNodes : List NodeId := env.nodes.filter (s.validBackend env)

/-- `TSTATE`. -/
def tstate (i : NodeId) : TState := s.conn.tstate i

/-- Overwrite one query context. -/
def setContext (qc : QcId) (c : QueryContext) : Session :=
  { s with contexts := fun q => if q = qc then c else s.contexts q }

@[simp] theorem contexts_setContext_self (qc : QcId) (c : QueryContext) :
    (s.setContext qc c).contexts qc = c := by
  simp [setContext]

theorem contexts_setContext_ne {qc q : QcId} (c : QueryContext) (h : q ≠ qc) :
    (s.setContext qc c).contexts q = s.contexts q := by
  simp [setContext, h]

@[simp] theorem setContext_setContext (qc : QcId) (c c' : QueryContext) :
    (s.setContext qc c).setContext qc c' = s.setContext qc c' := by
  have h : (fun q => if q = qc then c' else if q = qc then c else s.contexts q) =
      fun q => if q = qc then c' else s.contexts q := by
    funext q
    by_cases hq : q = qc <;> simp [hq]
  simp only [setContext, h]

/-- Set `where_to_send` of a context. -/
def setMap (qc : QcId) (map : NodeMap) : Session := s.setContext qc ((s.contexts qc).setMap map)

/-- Set `rewritten_query`. -/
def setRewrittenQuery (qc : QcId) (query : Option String) : Session :=
  s.setContext qc { s.contexts qc with rewrittenQuery := query }

theorem setContext_self (qc : QcId) : s.setContext qc (s.contexts qc) = s := by
  have h : (fun q => if q = qc then s.contexts qc else s.contexts q) = s.contexts := by
    funext q
    by_cases hq : q = qc <;> simp [hq]
  simp only [setContext, h]

/-! ### The flags of `pool_session_context.c` -/

def setQueryInProgress : Session := { s with inProgress := true }
def unsetQueryInProgress : Session := { s with inProgress := false }
def setDoingExtendedQueryMessage : Session := { s with doingExtendedQueryMessage := true }
def unsetDoingExtendedQueryMessage : Session := { s with doingExtendedQueryMessage := false }
def setCommandSuccess : Session := { s with commandSuccess := true }
def setWritingTransaction : Session := { s with writingTransaction := true }
def unsetWritingTransaction : Session := { s with writingTransaction := false }
def setFailedTransaction : Session := { s with failedTransaction := true }
def setSkipReadingFromBackends : Session := { s with skipReadingFromBackends := true }
def unsetSkipReadingFromBackends : Session := { s with skipReadingFromBackends := false }
def setIgnoreTillSync : Session := { s with ignoreTillSync := true }
def unsetIgnoreTillSync : Session := { s with ignoreTillSync := false }

def setTransactionIsolation (isolation : Isolation) : Session :=
  { s with transactionIsolation := isolation }

/-- `pool_unset_writing_transaction`, `pool_unset_failed_transaction` and
`pool_unset_transaction_isolation`, which the source calls together after a BEGIN. -/
def forgetTransaction : Session :=
  { s with
    writingTransaction := false, failedTransaction := false, transactionIsolation := .unknown }

def setUncompletedMessage (m : Option SentMessage) : Session := { s with uncompletedMessage := m }
def setQueryContext (qc : QcId) : Session := { s with queryContext := some qc }
def setMessageList (l : List SentMessage) : Session := { s with messageList := l }
def setMismatchNtuples (b : Bool) : Session := { s with mismatchNtuples := b }
def setAllowCloseTransaction (b : Bool) : Session := { s with allowCloseTransaction := b }

/-- Record what happens on the connections. -/
def emit (a : Action) : Session :=
  { s with conn := { s.conn with trace := a :: s.conn.trace } }

/-- Set `TSTATE` of some nodes. -/
def setTstate (nodes : List NodeId) (t : NodeId → TState) : Session :=
  { s with conn := { s.conn with tstate := fun j => if j ∈ nodes then t j else s.conn.tstate j } }

/-- Set or clear `INTERNAL_TRANSACTION_STARTED`. -/
def setMark (i : NodeId) (b : Bool) : Session :=
  { s with
    conn := { s.conn with
      internalTransactionStarted := fun j =>
        if j = i then b else s.conn.internalTransactionStarted j } }

/-- `pool_create_sent_message`. -/
def createSentMessage (kind : MsgKind) (contents : Contents) (numTsparams : Nat) (name : String)
    (qc : QcId) : SentMessage × Session :=
  (⟨s.nextMessage, kind, contents, numTsparams, name, qc⟩,
    { s with nextMessage := s.nextMessage + 1 })

/-- `pool_init_query_context`. -/
def initQueryContext : QcId × Session :=
  (s.nextContext,
    { s with
      contexts := fun q => if q = s.nextContext then QueryContext.zeroed else s.contexts q
      nextContext := s.nextContext + 1 })

/-- `pool_start_query`. -/
def startQuery (qc : QcId) (query : String) (node : Node) : Session :=
  ((s.setContext qc
    { s.contexts qc with
      originalQuery := query
      rewrittenQuery := none
      parseTree := node
      virtualMasterNodeId := env.realMasterNodeId }).setQueryInProgress).setQueryContext qc

/-- `pool_query_context_destroy`. -/
def queryContextDestroy (qc : QcId) : Session :=
  { s with
    inProgress := false
    queryContext := none
    destroyed := fun q => if q = qc then s.destroyed q + 1 else s.destroyed q }

/-- The current query context, while a query is in progress.  `pool_get_parse_tree` and
`pool_get_query_string` read its fields. -/
def currentQuery : Option QueryContext :=
  match s.inProgress, s.queryContext with
  | true, some qc => some (s.contexts qc)
  | _, _ => none

end Session

end PgPool
