import PgPool.Parser.Nodes

/-!
# Configuration and shared state

The settings of `pgpool.conf` that decide the routing (`pool_config.h`) and what a child process
reads from shared memory: `Req_info`, the backend descriptions and the child's own copy of the
backend statuses.
-/

namespace PgPool

/-- A DB node id. -/
abbrev NodeId := Nat

/-- `MAX_NUM_BACKENDS`. -/
def maxNumBackends : Nat := 128

/-- `BACKEND_STATUS`: `CON_UNUSED`, `CON_CONNECT_WAIT`, `CON_UP` and `CON_DOWN`. -/
inductive BackendStatus where
  | unused | connectWait | up | down
  deriving DecidableEq, Repr

/-- `CON_UP` or `CON_CONNECT_WAIT`. -/
def BackendStatus.isUp : BackendStatus → Bool
  | .connectWait | .up => true
  | .unused | .down => false

/-- `WHITELIST` and `BLACKLIST`. -/
inductive ListType where
  | white | black
  deriving DecidableEq, Repr

/-- An element of `lists_patterns`; `regexv` tells whether a string matches. -/
structure RegPattern where
  type : ListType
  regexv : String → Bool

/-- `POOL_CONFIG`. `pool_config.l` refuses a file that sets both `replication_mode` and
`master_slave_mode`. -/
structure PoolConfig where
  replicationMode : Bool
  masterSlaveMode : Bool
  parallelMode : Bool
  loadBalanceMode : Bool
  replicateSelect : Bool
  masterSlaveSubMode : String
  delayThreshold : Nat
  ignoreLeadingWhiteSpace : Bool
  numInitChildren : Nat
  failoverIfAffectedTuplesMismatch : Bool
  resetQueryList : List String
  listsPatterns : List RegPattern
  numWhiteFunctionList : Nat
  numBlackFunctionList : Nat
  modesExclusive : (replicationMode && masterSlaveMode) = false

namespace PoolConfig

variable (cfg : PoolConfig)

/-- `RAW_MODE`. -/
def rawMode : Bool := !cfg.replicationMode && !cfg.parallelMode && !cfg.masterSlaveMode

/-- `pattern_compare(str, type) == 1`. -/
def patternCompare (str : String) (type : ListType) : Bool :=
  cfg.listsPatterns.any fun pattern => pattern.type == type && pattern.regexv str

theorem rawMode_of_masterSlave (h : cfg.masterSlaveMode = true) : cfg.rawMode = false := by
  simp [rawMode, h]

theorem rawMode_of_replication (h : cfg.replicationMode = true) : cfg.rawMode = false := by
  simp [rawMode, h]

theorem masterSlave_of_replication (h : cfg.replicationMode = true) :
    cfg.masterSlaveMode = false := by
  have := cfg.modesExclusive
  simpa [h] using this

end PoolConfig

/-- What a child with a client reads from shared memory.  It does not change meanwhile: a
failover stops every child, and `pool_config->backend_desc` keeps its size.  `primaryNodeId` is
`none` for `-1`. -/
structure Shared where
  numBackends : Nat
  masterNodeId : NodeId
  primaryNodeId : Option NodeId
  /-- `BACKEND_INFO(i).backend_status`. -/
  backendStatus : NodeId → BackendStatus
  /-- `my_backend_status`, copied when the child started. -/
  myBackendStatus : NodeId → BackendStatus
  numBackends_le : numBackends ≤ maxNumBackends
  masterNodeId_lt : masterNodeId < numBackends
  primaryNodeId_lt : ∀ i, primaryNodeId = some i → i < numBackends

namespace Shared

variable (sh : Shared)

/-- `REAL_MASTER_NODE_ID`. -/
def realMasterNodeId : NodeId := sh.masterNodeId

/-- `PRIMARY_NODE_ID`. -/
def primary : NodeId := sh.primaryNodeId.getD sh.realMasterNodeId

/-- The indices `0, …, NUM_BACKENDS - 1` of the loops over the backends. -/
def nodes : List NodeId := List.range sh.numBackends

/-- `BACKEND_INFO(i).backend_status` is `CON_UP` or `CON_CONNECT_WAIT`. -/
def isUp (i : NodeId) : Bool := (sh.backendStatus i).isUp

/-- `*my_backend_status[i]` is `CON_UP` or `CON_CONNECT_WAIT`. -/
def isMyUp (i : NodeId) : Bool := (sh.myBackendStatus i).isUp

@[simp] theorem mem_nodes {i : NodeId} : i ∈ sh.nodes ↔ i < sh.numBackends := by
  simp [nodes]

theorem realMasterNodeId_lt : sh.realMasterNodeId < sh.numBackends :=
  sh.masterNodeId_lt

theorem primary_lt : sh.primary < sh.numBackends := by
  unfold primary
  cases h : sh.primaryNodeId with
  | none => exact sh.realMasterNodeId_lt
  | some i => exact sh.primaryNodeId_lt i h

end Shared

/-- The configuration and the shared memory a child works with, and `raw_parser`, which returns no
tree for a text that it cannot parse. -/
structure Setup extends PoolConfig, Shared where
  rawParser : String → List Node

/-- The tree of `POOL_DUMMY_QUERY`, a DELETE. -/
def dummyQuery : Node := .plain ⟨.deleteStmt, rfl⟩ 0

/-- The tree of `INSERT INTO foo VALUES(1)`, by which a function call is routed. -/
def functionCallQuery : Node := .plain ⟨.insertStmt, rfl⟩ 0

/-- The tree a text is handled by: the first one, or the dummy query's. -/
def Setup.statement (env : Setup) (sql : String) : Node :=
  (env.rawParser sql).head?.getD dummyQuery

/-- `SELECT 1`. -/
def selectOne : Node := .selectStmt (.ofTargets [.resTarget [] (.aConst (.integer 1))])

/-- A parser that knows a few statements, for runs on concrete messages. -/
def sampleParser : String → List Node
  | "BEGIN" => [.transactionStmt .begin []]
  | "COMMIT" => [.transactionStmt .commit []]
  | "ROLLBACK" | "ABORT" => [.transactionStmt .rollback []]
  | "SELECT 1" => [selectOne]
  | "SELECT 1; BEGIN" => [selectOne, .transactionStmt .begin []]
  | "EXPLAIN ANALYZE SELECT 1" => [.explainStmt selectOne [.defElem "analyze" .null]]
  | "INSERT" => [.plain ⟨.insertStmt, rfl⟩ 0]
  | "SET search_path TO s" =>
      [.variableSetStmt .setValue (some "search_path") [.aConst (.string "s")]]
  | "PREPARE s AS SELECT 1" => [.prepareStmt "s" selectOne]
  | "EXECUTE s" => [.executeStmt "s" .null []]
  | "DEALLOCATE s" => [.deallocateStmt (some "s")]
  | "DISCARD ALL" => [.discardStmt .all]
  | _ => []

/-- Two nodes that are up, node 0 the master and the primary, with load balancing. -/
def Setup.pair (replication : Bool) (rawParser : String → List Node) : Setup where
  replicationMode := replication
  masterSlaveMode := !replication
  parallelMode := false
  loadBalanceMode := true
  replicateSelect := false
  masterSlaveSubMode := "stream"
  delayThreshold := 0
  ignoreLeadingWhiteSpace := true
  numInitChildren := 32
  failoverIfAffectedTuplesMismatch := false
  resetQueryList := ["ABORT", "DISCARD ALL"]
  listsPatterns := []
  numWhiteFunctionList := 0
  numBlackFunctionList := 0
  modesExclusive := by cases replication <;> rfl
  numBackends := 2
  masterNodeId := 0
  primaryNodeId := none
  backendStatus := fun _ => .up
  myBackendStatus := fun _ => .up
  numBackends_le := by decide
  masterNodeId_lt := by decide
  primaryNodeId_lt := by
    intro i h
    cases h
  rawParser := rawParser

/-- A primary and a standby, and two replicas. -/
def Setup.standbyPair : Setup := .pair false sampleParser
def Setup.replicaPair : Setup := .pair true sampleParser

end PgPool
