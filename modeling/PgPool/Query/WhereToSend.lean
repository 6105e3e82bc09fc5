import PgPool.Query.Classify
import PgPool.Query.SelectWalker
import PgPool.Session.Registry

/-!
# Where a query is sent

`pool_where_to_send` of `pool_query_context.c`: the node map of a query context, computed from the
text and the parse tree of the statement, the configuration and the state of the session.
-/

namespace PgPool

open CString

/-- What the backends answer to the questions that routing asks: the catalog lookups of
`is_system_catalog` and `is_temp_table`, the isolation level of the transaction, and the standby
delay that the health check has last found. -/
structure Lookups where
  isSystemCatalog : String → Bool
  isTempTable : String → Bool
  transactionIsolation : Isolation
  standbyDelay : NodeId → Nat

namespace NodeMap

/-- `pool_clear_node_to_be_sent`. -/
def clear : NodeMap := fun _ => false

/-- `pool_set_node_to_be_sent`. -/
def set (map : NodeMap) (i : NodeId) : NodeMap :=
  if maxNumBackends < i then map else fun j => if j = i then true else map j

/-- `pool_unset_node_to_be_sent`. -/
def unset (map : NodeMap) (i : NodeId) : NodeMap :=
  if maxNumBackends < i then map else fun j => if j = i then false else map j

/-- `pool_setall_node_to_be_sent`. -/
def setall (env : Setup) (map : NodeMap) : NodeMap :=
  fun j => if j < env.numBackends ∧ env.isUp j = true then true else map j

/-- The first node of the map in the loop that sets `virtual_master_node_id`. -/
def first (env : Setup) (map : NodeMap) : Option NodeId := env.nodes.find? map

/-- `pool_multi_node_to_be_sent`. -/
def multi (env : Setup) (map : NodeMap) : Bool :=
  1 < (env.nodes.filter fun i => env.isUp i && map i).length

end NodeMap

/-- The text starts with `/*NO LOAD BALANCE*/`. -/
def hasNoLoadBalance (query : String) : Bool := casePrefix query "/*NO LOAD BALANCE*/"

namespace Session

/-- The result of `pool_get_transaction_isolation`, which asks the backend unless it has the level
cached. -/
def getTransactionIsolation (lk : Lookups) (s : Session) : Isolation :=
  if s.transactionIsolation ≠ .unknown then s.transactionIsolation else lk.transactionIsolation

end Session

section

variable (env : Setup) (lk : Lookups)

/-- The tests that follow once the transaction allows load balancing. -/
def loadBalanceTarget (loadBalanceNodeId : NodeId) (node : Node) : NodeId :=
  if env.masterSlaveSubMode = "stream" ∧ env.delayThreshold ≠ 0 ∧
      env.delayThreshold < lk.standbyDelay loadBalanceNodeId then env.primary
  else if poolHasFunctionCall env.toPoolConfig node then env.primary
  else if poolHasSystemCatalog lk.isSystemCatalog node then env.primary
  else if poolHasTempTable lk.isTempTable node then env.primary
  else loadBalanceNodeId

/-- Load balancing is configured and the statement is one for it. -/
def canLoadBalance (s : Session) (query : String) (node : Node) : Bool :=
  env.loadBalanceMode && isSelectQuery env.toPoolConfig node query && s.conn.major == .v3

/-- We are outside of an explicit transaction, or it has neither written nor failed yet and is not
serializable. -/
def transactionAllows (s : Session) : Bool :=
  s.tstate env.primary == .I ||
    (!s.writingTransaction && !s.failedTransaction && s.getTransactionIsolation lk != .serializable)

/-- The master/slave branch for a statement of which the primary or a standby may take care. -/
def eitherTarget (s : Session) (query : String) (node : Node) : NodeId :=
  if canLoadBalance env s query node then
    if transactionAllows env lk s then loadBalanceTarget env lk s.loadBalanceNodeId node
    else env.primary
  else env.primary

/-- The master/slave branch. -/
def masterSlaveNodes (s : Session) (query : String) (node : Node) : NodeMap :=
  match sendToWhere node with
  | .primary => NodeMap.clear.set env.primary
  | .both => NodeMap.clear.setall env
  | _ => NodeMap.clear.set (eitherTarget env lk s query node)

/-- The replication and parallel mode branch. -/
def replicationNodes (s : Session) (query : String) (node : Node) : NodeMap :=
  if isSelectQuery env.toPoolConfig node query && !isSequenceQuery node then
    if poolHasFunctionCall env.toPoolConfig node || env.replicateSelect then
      NodeMap.clear.setall env
    else if env.loadBalanceMode && s.conn.major == .v3 && s.tstate (s.masterNodeId env) == .I then
      NodeMap.clear.set s.loadBalanceNodeId
    else NodeMap.clear.set env.realMasterNodeId
  else NodeMap.clear.setall env

/-- The node map by mode. -/
def modeNodes (s : Session) (query : String) (node : Node) : NodeMap :=
  if env.rawMode then NodeMap.clear.set env.realMasterNodeId
  else if env.masterSlaveMode then masterSlaveNodes env lk s query node
  else replicationNodes env s query node

/-- The message that SQL EXECUTE and DEALLOCATE look up: PREPARE first, then Parse. -/
def preparedMessage (s : Session) (name : String) : Option SentMessage :=
  (s.getSentMessage .Q name).or (s.getSentMessage .P name)

/-- EXECUTE and DEALLOCATE inherit the map of the statement they name.  Where that statement has
the query context being routed, its map is `map` by now. -/
def inheritNodes (s : Session) (qc : QcId) (node : Node) (map : NodeMap) : NodeMap :=
  match node with
  | .executeStmt name _ _ | .deallocateStmt (some name) =>
      match preparedMessage s name with
      | some msg =>
          if msg.queryContext = qc then map else (s.contexts msg.queryContext).whereToSend
      | none => map
  | .deallocateStmt none => map.setall env
  | _ => map

/-- The node map that `pool_where_to_send` computes. -/
def nodesToSend (s : Session) (qc : QcId) (query : String) (node : Node) : NodeMap :=
  if hasNoLoadBalance query then
    NodeMap.clear.set (if env.masterSlaveMode then env.primary else env.realMasterNodeId)
  else inheritNodes env s qc node (modeNodes env lk s query node)

/-- The condition in the master/slave branch goes as far as `pool_get_transaction_isolation`. -/
def asksIsolation (s : Session) (query : String) (node : Node) : Bool :=
  !hasNoLoadBalance query && !env.rawMode && env.masterSlaveMode && sendToWhere node == .either &&
    canLoadBalance env s query node && s.tstate env.primary != .I && !s.writingTransaction &&
    !s.failedTransaction

end

/-- `pool_where_to_send`. -/
def poolWhereToSend (env : Setup) (lk : Lookups) (qc : QcId) (query : String) (node : Node)
    (s : Session) : Session :=
  let map := nodesToSend env lk s qc query node
  let c := s.contexts qc
  (s.setContext qc
    { c with
      whereToSend := map
      virtualMasterNodeId := (map.first env).getD c.virtualMasterNodeId }).setTransactionIsolation
    (if asksIsolation env s query node then s.getTransactionIsolation lk
      else s.transactionIsolation)

end PgPool
