import PgPool.Proto.Transaction

/-!
# Messages from the frontend

`SimpleQuery`, `Parse`, `Bind`, `Describe`, `Execute`, `Close` and `ProcessFrontendResponse` of
`pool_proto_modules.c`.  A function returns `none` where the source returns something else than
`POOL_CONTINUE`: the child then exits, or discards the connections it is resetting.
-/

namespace PgPool

open CString

/-- A message from the frontend. -/
inductive FrontendMsg where
  | query (contents : String)
  | parse (name stmt : String)
  | bind (portal stmtName : String) (params : List String)
  | describe (target : Target) (name : String)
  | execute (portal : String)
  | close (target : Target) (name : String)
  | sync
  | functionCall
  | forward (message : ForwardedMsg)

def FrontendMsg.isSync : FrontendMsg → Bool
  | .sync => true
  | _ => false

/-- `POOL_ERROR_QUERY`. -/
def poolErrorQuery : String := "send invalid query from pgpool to abort transaction"

/-- The queries that report the status of pgpool. -/
def poolShowQueries : List String :=
  ["show pool_status", "show pool_pools", "show pool_processes", "show pool_nodes",
   "show pool_version"]

/-- A `SHOW` that pgpool answers on its own. -/
def isPoolShow (contents : String) : Node → Bool
  | .variableShowStmt _ => poolShowQueries.any (casePrefix contents)
  | _ => false

/-- A sent message as the body of a Parse. -/
def Contents.toParse : Contents → BackendMsg
  | .parse name stmt => .parse name stmt
  | .query string => .parse string ""
  | .bind portal stmtName _ => .parse portal stmtName

namespace Session

/-! ## Simple queries -/

section

variable (env : Setup) (ans : Answers)

/-- The calls by which a message goes to the master first and then to the other nodes, or, for a
COMMIT or ROLLBACK, the other way round. -/
def masterFirst (message : BackendMsg) (master : NodeId) : List SendCall :=
  [⟨message, 1, master⟩, ⟨message, -1, master⟩]

def masterLast (message : BackendMsg) (master : NodeId) : List SendCall :=
  [⟨message, -1, master⟩, ⟨message, 1, master⟩]

/-- The internal transaction and the table lock for a query that goes to several nodes. -/
def startMultiNode (qc : QcId) (node : Node) (s : Session) : Option Session :=
  if !env.rawMode && (s.contexts qc).whereToSend.multi env then
    match startInternalTransaction env ans node s with
    | (_, false) => none
    | (s, true) => if needInsertLock ans node then insertLock env ans s else some s
  else some s

/-- In protocol V2 the transaction state is set before the BEGIN is sent. -/
def beginV2 (node : Node) (s : Session) : Session :=
  if s.conn.major = .v2 ∧ isStartTransactionQuery node = true then
    s.setTstate (s.validNodes env) fun _ => .T
  else s

/-- The uncompleted message of a PREPARE. -/
def notePrepare (qc : QcId) (contents : String) (node : Node) (s : Session) : Session :=
  match node with
  | .prepareStmt name _ =>
      let (m, s) := s.createSentMessage .Q (.query contents) 0 name qc
      (s.emit (.routed m (s.contexts qc).whereToSend)).setUncompletedMessage (some m)
  | _ => s

/-- `rewritten_query`, which is set in none of the branches for COMMIT, ROLLBACK and raw mode. -/
def rewriteQuery (qc : QcId) (node : Node) (s : Session) : Session :=
  if !env.rawMode && !isCommitQuery node then
    s.setRewrittenQuery qc ans.rewritten
  else s

/-- The calls of `pool_send_and_wait` for a simple query. -/
def queryCalls (node : Node) (string : String) (master : NodeId) : List SendCall :=
  if env.rawMode then [⟨.query string, 1, master⟩]
  else if isCommitQuery node then masterLast (.query string) master
  -- all nodes at once
  else if env.numInitChildren = 1 then [⟨.query string, 0, 0⟩]
  else masterFirst (.query string) master

/-- The part of `SimpleQuery` that sends the query. -/
def sendQuery (qc : QcId) (node : Node) (s : Session) : Session :=
  let s := rewriteQuery env ans qc node s
  let c := s.contexts qc
  sendCalls env qc
    (queryCalls env node (c.rewrittenQuery.getD c.originalQuery) (s.masterNodeId env)) s

/-- `SimpleQuery` from where it has decided to send the query. -/
def routeQuery (qc : QcId) (contents : String) (node : Node) (s : Session) : Option Session :=
  match startMultiNode env ans qc node (poolWhereToSend env ans.lookups qc contents node s) with
  | none => none
  | some s => some (sendQuery env ans qc node ((s.beginV2 env node).notePrepare qc contents node))

/-- `SimpleQuery`. -/
def simpleQuery (contents : String) (s : Session) : Option Session :=
  let (qc, s) := s.initQueryContext
  let node := env.statement contents
  if node.tag == .selectStmt && ans.cacheHit then
    some (s.queryContextDestroy qc).setSkipReadingFromBackends
  else
    let s := s.startQuery env qc contents node
    if env.parallelMode && ans.parallelDone then some (s.queryContextDestroy qc)
    else if isPoolShow contents node then
      some (s.queryContextDestroy qc).setSkipReadingFromBackends
    else routeQuery env ans qc contents node s

/-! ## The extended protocol -/

/-- `Parse` as far as it decides where to send the statement and rewrites it. -/
def parseStart (name stmt : String) (s : Session) : SentMessage × Session :=
  let (qc, s) := s.initQueryContext
  let node := env.statement stmt
  let s := s.startQuery env qc stmt node
  let (m, s) := s.createSentMessage .P (.parse name stmt) 0 name qc
  let s := poolWhereToSend env ans.lookups qc stmt node (s.setUncompletedMessage (some m))
  if env.replicationMode then
    let m := { m with
      numTsparams := ans.numTsparams
      contents := .parse name (ans.rewritten.getD stmt) }
    (m, (s.setRewrittenQuery qc ans.rewritten).setUncompletedMessage (some m))
  else (m, s)

/-- `Parse` synchronizes the transaction state of the nodes. -/
def parseSync (s : Session) : Option Session :=
  if env.replicationMode && s.tstate (s.masterNodeId env) != .T then
    if ans.syncFails then none
    else
      match readyForQuery env ans (s.emit (.synced (s.validNodes env))) with
      | none => none
      | some s => some s.setQueryInProgress
  else some s

/-- `Parse` starts an internal transaction, whatever comes of it, and locks the table. -/
def parseLock (node : Node) (s : Session) : Option Session :=
  if env.replicationMode then
    let s := if isStrictQuery node then (startInternalTransaction env ans node s).1 else s
    if needInsertLock ans node then insertLock env ans s else some s
  else some s

/-- The calls of `pool_send_and_wait` for Parse. -/
def parseCalls (message : BackendMsg) (master : NodeId) : List SendCall :=
  if env.rawMode then [⟨message, 1, master⟩]
  else if ans.deadlock then [⟨message, 1, master⟩, ⟨.query poolErrorQuery, -1, master⟩]
  else masterFirst message master

/-- `Parse`. -/
def parse (name stmt : String) (s : Session) : Option Session :=
  let (m, s) := parseStart env ans name stmt s
  let s := s.emit (.routed m (s.contexts m.queryContext).whereToSend)
  match parseSync env ans s with
  | none => none
  | some s =>
      match parseLock env ans (env.statement stmt) s with
      | none => none
      | some s =>
          some (sendCalls env m.queryContext
            (parseCalls env ans m.contents.toParse (s.masterNodeId env)) s)

/-- The loop of `parse_before_bind`: the nodes of the map that have not parsed the statement get the
Parse, the others are taken out of the map. -/
def parseBeforeBindStep (qc : QcId) (message : BackendMsg) (s : Session) (i : NodeId) : Session :=
  let c := s.contexts qc
  if c.whereToSend i && c.queryState i == .unparsed then poolSendAndWait env qc message 1 i s
  else s.setMap qc fun j => if j = i then false else c.whereToSend j

/-- `parse_before_bind`. -/
def parseBeforeBind (m : SentMessage) (s : Session) : Option Session :=
  let qc := m.queryContext
  let backup := (s.contexts qc).whereToSend
  let s := env.nodes.foldl (parseBeforeBindStep env qc m.contents.toParse) s
  if env.nodes.any (s.contexts qc).whereToSend then
    if ans.parsed then some ((s.emit (.completed m (s.validNodes env))).setMap qc backup) else none
  else some (s.setMap qc backup)

/-- `Bind` as far as it decides where to send the message. -/
def bindStart (portal stmtName : String) (params : List String) (parseMsg : SentMessage)
    (s : Session) : Session :=
  let qc := parseMsg.queryContext
  let c := s.contexts qc
  let (m, s) := s.createSentMessage .B (.bind portal stmtName params) parseMsg.numTsparams portal qc
  let s := poolWhereToSend env ans.lookups qc c.originalQuery c.parseTree
    ((s.setUncompletedMessage (some m)).setQueryContext qc)
  s.emit (.routed m (s.contexts qc).whereToSend)

/-- The Bind message with the timestamps that its statement takes. -/
def bindMessage (portal stmtName : String) (params : List String) (parseMsg : SentMessage) :
    BackendMsg :=
  .bind portal stmtName
    (if env.replicationMode && 0 < parseMsg.numTsparams then ans.boundParams.getD params else params)

/-- `Bind` parses the statement where it may have to go for the first time. -/
def bindParse (parseMsg : SentMessage) (s : Session) : Option Session :=
  if env.loadBalanceMode && s.writingTransaction then parseBeforeBind env ans parseMsg s else some s

/-- `Bind`. -/
def bind (portal stmtName : String) (params : List String) (s : Session) : Option Session :=
  match preparedMessage s stmtName with
  | none => none
  | some parseMsg =>
      match bindParse env ans parseMsg (bindStart env ans portal stmtName params parseMsg s) with
      | none => none
      | some s =>
          some (sendCalls env parseMsg.queryContext
            (masterFirst (bindMessage env ans portal stmtName params parseMsg) (s.masterNodeId env)) s)

/-- The message that Describe and Close look up. -/
def targetMessage (target : Target) (name : String) (s : Session) : Option SentMessage :=
  match target with
  | .statement => preparedMessage s name
  | .portal => s.getSentMessage .B name

/-- Route the query of a sent message again. -/
def reroute (m : SentMessage) (s : Session) : Session :=
  let c := s.contexts m.queryContext
  poolWhereToSend env ans.lookups m.queryContext c.originalQuery c.parseTree
    (s.setQueryContext m.queryContext)

/-- `Describe`. -/
def describe (target : Target) (name : String) (s : Session) : Option Session :=
  match targetMessage target name s with
  | none => none
  | some m =>
      let s := reroute env ans m s
      some (sendCalls env m.queryContext
        (masterFirst (.describe target name) (s.masterNodeId env)) s)

/-- The calls of `pool_send_and_wait` for Execute. -/
def executeCalls (node : Node) (portal : String) (master : NodeId) : List SendCall :=
  if env.replicationMode || env.parallelMode then
    if isCommitQuery node then masterLast (.execute portal) master
    else if ans.specificError then [⟨.execute portal, 1, master⟩, ⟨.errorPortal, -1, master⟩]
    else masterFirst (.execute portal) master
  else masterFirst (.execute portal) master

/-- `Execute`. -/
def execute (portal : String) (s : Session) : Option Session :=
  match s.getSentMessage .B portal with
  | none => none
  | some m =>
      let s := reroute env ans m s
      some (sendCalls env m.queryContext
        (executeCalls env ans (s.contexts m.queryContext).parseTree portal (s.masterNodeId env)) s)

/-- `Close`, which does not decide anew where to send. -/
def close (target : Target) (name : String) (s : Session) : Option Session :=
  match targetMessage target name s with
  | none => none
  | some m =>
      let s := (s.setUncompletedMessage (some m)).setQueryContext m.queryContext
      some (sendCalls env m.queryContext (masterFirst (.close target name) (s.masterNodeId env)) s)

/-! ## `ProcessFrontendResponse` -/

/-- The query is in progress now, unless messages are being ignored. -/
def startMessage (s : Session) : Session :=
  if !s.inProgress && !s.ignoreTillSync then s.setQueryInProgress else s

/-- What happens before an extended query message is processed. -/
def startExtended (s : Session) : Session := s.setDoingExtendedQueryMessage.startMessage

/-- The case `S`. -/
def processSync (s : Session) : Session :=
  let s := s.setDoingExtendedQueryMessage.unsetIgnoreTillSync.setQueryInProgress
  s.emit (.synced (s.validNodes env))

/-- The case `F`, with a dummy query context as if it were an INSERT. -/
def processFunctionCall (s : Session) : Session :=
  let (qc, s) := s.initQueryContext
  let query := "INSERT INTO foo VALUES(1)"
  let s := s.startQuery env qc query functionCallQuery
  let s := poolWhereToSend env ans.lookups qc query functionCallQuery s
  s.emit (.forwarded .functionCall (s.validNodes env))

/-- The switch of `ProcessFrontendResponse`. -/
def processMessage (msg : FrontendMsg) (s : Session) : Option Session :=
  match msg with
  | .query contents => simpleQuery env ans contents (s.setAllowCloseTransaction true)
  | .execute portal => execute env ans portal (s.setAllowCloseTransaction true).startExtended
  | .parse name stmt => parse env ans name stmt (s.setAllowCloseTransaction false).startExtended
  | .bind portal stmtName params => bind env ans portal stmtName params s.startExtended
  | .close target name => close env target name s.startMessage
  | .describe target name => describe env ans target name s.startExtended
  | .sync => some (processSync env s)
  | .functionCall => some (processFunctionCall env ans s)
  | .forward message =>
      match s.conn.major with
      | .v2 => none
      | .v3 => some (s.emit (.forwarded message (s.validNodes env)))

/-- `ProcessFrontendResponse`, but for Terminate.  After an error in the extended protocol all
messages are ignored up to Sync. -/
def processFrontendResponse (msg : FrontendMsg) (s : Session) : Option Session :=
  if s.ignoreTillSync && !msg.isSync then some s
  else processMessage env ans msg s.unsetDoingExtendedQueryMessage

end

end Session

end PgPool
