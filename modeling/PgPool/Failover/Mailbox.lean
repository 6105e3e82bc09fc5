import Mathlib.Data.List.Range
import Mathlib.Logic.Function.Basic
import PgPool.Config
import PgPool.Lib.Transition

/-!
# The request mailbox and `failover()`

Every process asks the parent for a failover through one mailbox in shared memory, `Req_info`, and a
SIGUSR1.  Some requesters hold a semaphore while they write, some do not, so that what they write are
steps of their own here.  The parent works as a sequence of steps too, cut where it reads the mailbox
again or lets signals in.
-/

namespace PgPool

/-- `POOL_REQUEST_KIND`. -/
inductive RequestKind where
  | nodeUp | nodeDown | nodeRecovery | closeIdle | promoteNode
  deriving DecidableEq, Repr

/-- `POOL_REQUEST_INFO`; -1 is an empty entry of `node_id`, and no node among the last two. -/
structure RequestInfo where
  kind : RequestKind
  nodeId : Nat → Int
  masterNodeId : Int
  primaryNodeId : Int

/-- The settings that `main.c` adds: `POOL_DISALLOW_TO_FAILOVER` of the backend flags, and whether
there is a `follow_master_command`. -/
structure FailoverConfig extends PoolConfig where
  numBackends : Nat
  disallowToFailover : Int → Bool
  followMasterCommand : Bool
  numBackends_le : numBackends ≤ maxNumBackends

namespace FailoverConfig

variable (cfg : FailoverConfig)

/-- `MASTER_SLAVE` with `master_slave_sub_mode` "stream". -/
def streaming : Bool := cfg.masterSlaveMode && cfg.masterSlaveSubMode == "stream"

/-- A node id of a backend. -/
def IsNode (i : Int) : Prop := 0 ≤ i ∧ i < cfg.numBackends

instance (i : Int) : Decidable (cfg.IsNode i) := inferInstanceAs (Decidable (_ ∧ _))

/-- `VALID_BACKEND(i)`, with the master as `Req_info` has it, the nodes of the current query and
what `my_backend_status` points to. -/
def validBackend (master : Int) (sent : Int → Bool) (status : Int → BackendStatus) (i : Int) : Bool :=
  (cfg.rawMode && i == master) ||
    ((if cfg.rawMode then i == master else sent i) && (status i).isUp)

/-- The indices of `my_backend_status` that `VALID_BACKEND(i)` looks at. -/
def validBackendUses (sent : Int → Bool) (i : Int) : List Int :=
  if cfg.rawMode || !sent i then [] else [i]

/-- The indices `0, …, num_backends - 1`. -/
def nodes : List Int := (List.range cfg.numBackends).map Int.ofNat

end FailoverConfig

/-- What a requester goes by: the nodes of its current query, all outside of a session, and
`my_backend_status`.  The latter has no status for what is not a node. -/
structure View (cfg : FailoverConfig) where
  sent : Int → Bool
  status : Int → BackendStatus
  unused : ∀ i, ¬ cfg.IsNode i → status i = .unused

/-- Who called `failover()`. -/
inductive Caller where
  | checkRequest | healthCheck
  deriving DecidableEq, Repr

/-- Where the parent is.  It lets signals in while it is `waiting` or `searching`, and holds
`REQUEST_INFO_SEM` from `locked` to `searching`. -/
inductive FailoverPhase where
  /-- `pool_pause()` or `health_check()`. -/
  | waiting
  /-- `CHECK_REQUEST`, before `failover_request` is tested. -/
  | checking
  /-- After a failed health check has written the kind of its request. -/
  | reporting (sts : Int)
  /-- In `failover()`, before the semaphore is locked. -/
  | called (caller : Caller)
  /-- `switching` is set. -/
  | locked (caller : Caller)
  /-- `node_id` has been read, and the request is no failback. -/
  | tested (caller : Caller) (nodeId : Int)
  /-- The new master has been chosen; `nodes` are those that went down. -/
  | chosen (caller : Caller) (nodeId : Int) (nodes : List Int) (newMaster : Int)
  /-- `find_primary_node_repeatedly()`, unless a node is `promoted`. -/
  | searching (caller : Caller) (nodeId : Int) (nodes : List Int) (newMaster : Int) (promoted : Bool)
  /-- The semaphore is unlocked; the new primary and master are not saved yet. -/
  | finishing (caller : Caller) (nodeId newPrimary newMaster : Int)
  /-- `failover()` has returned. -/
  | returned (caller : Caller)
  deriving DecidableEq, Repr

namespace FailoverPhase

/-- The parent holds `REQUEST_INFO_SEM`. -/
def holds : FailoverPhase → Bool
  | .locked _ | .tested _ _ | .chosen _ _ _ _ | .searching _ _ _ _ _ => true
  | _ => false

/-- SIGUSR1 is not blocked. -/
def letsIn : FailoverPhase → Bool
  | .waiting | .searching _ _ _ _ false => true
  | _ => false

end FailoverPhase

/-- The shared memory, the parent, and what has happened so far: `accepted` are the nodes that
degenerate requests have been accepted for since the mailbox was last cleared, `owed` those that have
not been attached again since, and `used` the indices of the backend descriptors that were used,
loops over all backends aside. -/
structure ParentState where
  /-- `BACKEND_INFO(i).backend_status`, or what is in the memory in its place. -/
  status : Int → BackendStatus
  reqInfo : RequestInfo
  signalPending : Bool
  failoverRequest : Bool
  phase : FailoverPhase
  accepted : List Int
  owed : List Int
  used : List Int

/-- A step of a requester or of the parent. -/
inductive ParentEvent (cfg : FailoverConfig) where
  /-- `degenerate_backend_set`. -/
  | degenerateBackendSet (view : View cfg) (nodeIdSet : List Int)
  /-- `promote_backend`. -/
  | promoteBackend (view : View cfg) (nodeId : Int)
  /-- `send_failback_request`: the two writes, the test and the signal. -/
  | failbackKind
  | failbackNodeId (nodeId : Int)
  | failbackSignal (view : View cfg) (nodeId : Int)
  /-- `SimpleQuery` for DROP DATABASE: the write, and its signal or any other one. -/
  | closeIdle
  | signal
  /-- `start_recovery`. -/
  | startRecovery (view : View cfg) (recoveryNode : Int)
  /-- `new_connection` of a child has connected to a node. -/
  | newConnection (i : Int)
  /-- The parent: `failover_handler`, `CHECK_REQUEST`, the health check. -/
  | failoverHandler
  | wakeUp
  | checkRequest
  | healthCheckFailed (sts : Int)
  | healthCheckNodeId
  /-- The parent in `failover()`; `found` is what `find_primary_node_repeatedly()` returns, and `below`
  what lies below the array `nodes`. -/
  | lock
  | testFailback
  | dispatch
  | choosePrimary
  | checkRequestAgain
  | followPrimary (found : Int) (below : Bool)
  | saveNodeIds
  | clearRequest

namespace ParentState

section

variable (cfg : FailoverConfig) (s : ParentState)

/-- `VALID_BACKEND(i)` in the parent. -/
def valid (i : Int) : Bool :=
  cfg.validBackend s.reqInfo.masterNodeId (fun _ => true) s.status i

/-- `VALID_BACKEND(i)` in a requester. -/
def validFor (view : View cfg) (i : Int) : Bool :=
  cfg.validBackend s.reqInfo.masterNodeId view.sent view.status i

/-- `get_next_master_node()`. -/
def getNextMasterNode : Int :=
  (cfg.nodes.find? fun i =>
    if cfg.rawMode then s.status i == .connectWait else s.valid cfg i).getD (-1)

/-- `node_id_set[i]` is out of range. -/
def outOfRange (i : Int) : Bool := decide (i < 0) || decide ((maxNumBackends : Int) ≤ i)

/-- The request is accepted for this node. -/
def acceptsDown (view : View cfg) (i : Int) : Bool :=
  !outOfRange i && s.validFor cfg view i && !cfg.disallowToFailover i

/-- The entries that `degenerate_backend_set` writes. -/
def downEntries (view : View cfg) (nodeIdSet : List Int) : List (Nat × Int) :=
  (nodeIdSet.zipIdx.filter fun p => s.acceptsDown cfg view p.1).map fun p => (p.2, p.1)

/-- Write entries of `node_id`. -/
def writeNodeIds (nodeId : Nat → Int) (entries : List (Nat × Int)) : Nat → Int :=
  entries.foldl (fun f p => Function.update f p.1 p.2) nodeId

/-- `degenerate_backend_set`. -/
def degenerateBackendSet (view : View cfg) (nodeIdSet : List Int) : ParentState :=
  if cfg.parallelMode then s
  else
    let entries := s.downEntries cfg view nodeIdSet
    let named := entries.map Prod.snd
    { s with
      reqInfo := { s.reqInfo with
        kind := .nodeDown
        nodeId := writeNodeIds s.reqInfo.nodeId entries }
      signalPending := s.signalPending || !entries.isEmpty
      accepted := named ++ s.accepted
      owed := named ++ s.owed
      used := s.used ++
        (nodeIdSet.filter fun i => !outOfRange i).flatMap (cfg.validBackendUses view.sent) ++ named }

/-- `promote_backend`. -/
def promoteBackend (view : View cfg) (nodeId : Int) : ParentState :=
  if cfg.streaming then
    if outOfRange nodeId then s
    else
      let s := { s with used := s.used ++ cfg.validBackendUses view.sent nodeId }
      if s.validFor cfg view nodeId then
        { s with
          reqInfo := { s.reqInfo with
            kind := .promoteNode
            nodeId := Function.update s.reqInfo.nodeId 0 nodeId }
          signalPending := true }
      else s
  else s

/-- The end of `send_failback_request`. -/
def failbackSignal (view : View cfg) (nodeId : Int) : ParentState :=
  if outOfRange nodeId then s
  else if cfg.rawMode then
    let alive := s.status nodeId != .down && s.validFor cfg view nodeId
    { s with signalPending := s.signalPending || !alive, used := s.used ++ [nodeId] }
  else { s with signalPending := true }

/-- `start_recovery`, as far as the mailbox is concerned. -/
def startRecovery (view : View cfg) (recoveryNode : Int) : ParentState :=
  let s := { s with used := s.used ++ cfg.validBackendUses view.sent recoveryNode }
  if s.validFor cfg view recoveryNode then s
  else { s with reqInfo := { s.reqInfo with kind := .nodeRecovery } }

/-- What `health_check()` may find wrong with a node; in parallel mode that counts after some
retries. -/
def healthCheckFinds (sts : Int) : Bool :=
  decide (cfg.IsNode sts) && (s.status sts).isUp &&
    (cfg.parallelMode || !cfg.disallowToFailover sts)

/-- `failover()` up to the test of the kind; nothing else is done for CLOSE_IDLE_REQUEST. -/
def lock (caller : Caller) : ParentState :=
  if s.reqInfo.kind = .closeIdle then { s with phase := .returned caller }
  else { s with phase := .locked caller }

/-- The choice of the new master. -/
def chooseMaster (caller : Caller) (nodeId : Int) (nodes : List Int) : ParentState :=
  { s with phase := .chosen caller nodeId nodes (s.getNextMasterNode cfg) }

/-- `failover()` for a failback, up to the choice of the new master.  What is not a failback goes on
at `dispatch`. -/
def testFailback (caller : Caller) : ParentState :=
  let nodeId := s.reqInfo.nodeId 0
  if s.reqInfo.kind = .nodeUp then
    -- the message of the first branch looks at the status of the node too
    if (maxNumBackends : Int) ≤ nodeId then
      { s with phase := .returned caller, used := s.used ++ [nodeId] }
    else if !(cfg.rawMode && s.status nodeId == .down) && s.valid cfg nodeId then
      { s with phase := .returned caller, used := s.used ++ [nodeId] }
    else
      let t := { s with
        status := Function.update s.status nodeId .connectWait
        owed := s.owed.filter (· != nodeId)
        used := s.used ++ [nodeId] }
      t.chooseMaster cfg caller nodeId []
  else { s with phase := .tested caller nodeId }

/-- The entries of `node_id`. -/
def entries : List Int := (List.range maxNumBackends).map s.reqInfo.nodeId

/-- The nodes that `failover()` takes down at the request of the mailbox. -/
def downNodes : List Int := s.entries.filter fun i => i != -1 && s.valid cfg i

/-- Statuses set to CON_DOWN. -/
def setDown (status : Int → BackendStatus) (nodes : List Int) : Int → BackendStatus :=
  fun i => if i ∈ nodes then .down else status i

/-- `failover()` for any other request, up to the choice of the new master. -/
def dispatch (caller : Caller) (nodeId : Int) : ParentState :=
  if s.reqInfo.kind = .promoteNode then
    if nodeId = -1 then { s with phase := .returned caller }
    else
      let t := { s with used := s.used ++ [nodeId] }
      if s.valid cfg nodeId then t.chooseMaster cfg caller nodeId []
      else { t with phase := .returned caller }
  else
    let down := s.downNodes cfg
    let t := { s with
      status := setDown s.status down
      used := s.used ++ s.entries.filter (· != -1) }
    if down = [] then { t with phase := .returned caller } else t.chooseMaster cfg caller nodeId down

/-- The new primary is the node to be promoted, or has to be searched. -/
def choosePrimary (caller : Caller) (nodeId : Int) (nodes : List Int) (newMaster : Int) :
    ParentState :=
  let promote := s.reqInfo.kind == .promoteNode
  -- the children are not restarted for a failback, and a message says so
  let failback := cfg.streaming && s.reqInfo.kind == .nodeUp
  { s with
    phase := .searching caller nodeId nodes newMaster (promote && s.valid cfg nodeId)
    used := s.used ++ if promote || failback then [nodeId] else [] }

/-- What `find_primary_node_repeatedly()` may return. -/
def mayFind (found : Int) : Bool :=
  found == -1 || (cfg.streaming && decide (cfg.IsNode found) && s.valid cfg found)

/-- `nodes[Req_info->primary_node_id]`. -/
def primaryWentDown (nodes : List Int) (below : Bool) : Bool :=
  if s.reqInfo.primaryNodeId < 0 then below else nodes.contains s.reqInfo.primaryNodeId

/-- The old primary is replaced, and what followed it does not follow the new one. -/
def followDegenerates (nodeId : Int) (nodes : List Int) (below : Bool) : Bool :=
  cfg.streaming && (cfg.followMasterCommand || s.reqInfo.kind == .promoteNode) &&
    ((s.reqInfo.kind == .nodeDown && s.primaryWentDown nodes below) ||
      (s.reqInfo.kind == .promoteNode && s.valid cfg nodeId))

/-- The nodes that are taken down because they follow the old primary. -/
def followers (newPrimary : Int) : List Int :=
  if 0 ≤ newPrimary then cfg.nodes.filter (· != newPrimary) else []

/-- `failover()` from the search for the primary until the semaphore is unlocked. -/
def followPrimary (caller : Caller) (nodeId : Int) (nodes : List Int) (newMaster newPrimary : Int)
    (below : Bool) : ParentState :=
  let follow :=
    if s.followDegenerates cfg nodeId nodes below then followers cfg newPrimary else []
  let t := { s with status := setDown s.status follow }
  let newMaster := if follow = [] then newMaster else t.getNextMasterNode cfg
  let uses := if cfg.streaming && s.reqInfo.kind == .promoteNode then [nodeId] else []
  { t with
    reqInfo := { s.reqInfo with nodeId := fun _ => -1 }
    phase := .finishing caller nodeId newPrimary newMaster
    accepted := []
    used := s.used ++ uses }

/-- The end of `failover()`; the last message names the node. -/
def saveNodeIds (caller : Caller) (nodeId newPrimary newMaster : Int) : ParentState :=
  { s with
    reqInfo := { s.reqInfo with
      primaryNodeId := newPrimary
      masterNodeId := if 0 ≤ newMaster then newMaster else s.reqInfo.masterNodeId }
    phase := .returned caller
    used := s.used ++ [nodeId] }

/-- `CHECK_REQUEST` after `failover()`; a health check goes on without it. -/
def clearRequest : Caller → ParentState
  | .checkRequest => { s with phase := .waiting, failoverRequest := false }
  | .healthCheck => { s with phase := .waiting }

end

/-- One step. -/
def step (cfg : FailoverConfig) (s : ParentState) : ParentEvent cfg → Option ParentState
  | .degenerateBackendSet view nodeIdSet =>
      if s.phase.holds || decide (maxNumBackends < nodeIdSet.length) then none
      else some (s.degenerateBackendSet cfg view nodeIdSet)
  | .promoteBackend view nodeId =>
      if s.phase.holds then none else some (s.promoteBackend cfg view nodeId)
  | .failbackKind => some { s with reqInfo := { s.reqInfo with kind := .nodeUp } }
  | .failbackNodeId nodeId =>
      some { s with
        reqInfo := { s.reqInfo with nodeId := Function.update s.reqInfo.nodeId 0 nodeId } }
  | .failbackSignal view nodeId => some (s.failbackSignal cfg view nodeId)
  | .closeIdle => some { s with reqInfo := { s.reqInfo with kind := .closeIdle } }
  | .signal => some { s with signalPending := true }
  | .startRecovery view recoveryNode => some (s.startRecovery cfg view recoveryNode)
  | .newConnection i =>
      if cfg.IsNode i then some { s with status := Function.update s.status i .up } else none
  | .failoverHandler =>
      if s.signalPending && s.phase.letsIn then
        some { s with signalPending := false, failoverRequest := true }
      else none
  | .wakeUp => if s.phase = .waiting then some { s with phase := .checking } else none
  | .checkRequest =>
      if s.phase = .checking then
        some { s with phase := if s.failoverRequest then .called .checkRequest else .waiting }
      else none
  | .healthCheckFailed sts =>
      if s.phase = .waiting ∧ s.healthCheckFinds cfg sts = true then
        some { s with
          reqInfo := { s.reqInfo with kind := .nodeDown }
          phase := .reporting sts
          used := s.used ++ [sts] }
      else none
  | .healthCheckNodeId =>
      match s.phase with
      | .reporting sts =>
          some { s with
            reqInfo := { s.reqInfo with nodeId := Function.update s.reqInfo.nodeId 0 sts }
            phase := .called .healthCheck
            accepted := sts :: s.accepted
            owed := sts :: s.owed }
      | _ => none
  | .lock =>
      match s.phase with
      | .called caller => some (s.lock caller)
      | _ => none
  | .testFailback =>
      match s.phase with
      | .locked caller => some (s.testFailback cfg caller)
      | _ => none
  | .dispatch =>
      match s.phase with
      | .tested caller nodeId => some (s.dispatch cfg caller nodeId)
      | _ => none
  | .choosePrimary =>
      match s.phase with
      | .chosen caller nodeId nodes newMaster =>
          some (s.choosePrimary cfg caller nodeId nodes newMaster)
      | _ => none
  | .checkRequestAgain =>
      -- `switching` is set, so that `failover()` returns at once
      match s.phase with
      | .searching _ _ _ _ false => some { s with failoverRequest := false }
      | _ => none
  | .followPrimary found below =>
      match s.phase with
      | .searching caller nodeId nodes newMaster promoted =>
          if promoted then
            some (s.followPrimary cfg caller nodeId nodes newMaster nodeId below)
          else if s.mayFind cfg found then
            some (s.followPrimary cfg caller nodeId nodes newMaster found below)
          else none
      | _ => none
  | .saveNodeIds =>
      match s.phase with
      | .finishing caller nodeId newPrimary newMaster =>
          some (s.saveNodeIds caller nodeId newPrimary newMaster)
      | _ => none
  | .clearRequest =>
      match s.phase with
      | .returned caller => some (s.clearRequest caller)
      | _ => none

/-- The steps, each with what it takes. -/
inductive Stepped (cfg : FailoverConfig) (s : ParentState) : ParentEvent cfg → ParentState → Prop
  | degenerateBackendSet (view : View cfg) (nodeIdSet : List Int) (free : s.phase.holds = false)
      (few : nodeIdSet.length ≤ maxNumBackends) :
      Stepped cfg s (.degenerateBackendSet view nodeIdSet) (s.degenerateBackendSet cfg view nodeIdSet)
  | promoteBackend (view : View cfg) (nodeId : Int) (free : s.phase.holds = false) :
      Stepped cfg s (.promoteBackend view nodeId) (s.promoteBackend cfg view nodeId)
  | failbackKind : Stepped cfg s .failbackKind { s with reqInfo := { s.reqInfo with kind := .nodeUp } }
  | failbackNodeId (nodeId : Int) : Stepped cfg s (.failbackNodeId nodeId)
      { s with reqInfo := { s.reqInfo with nodeId := Function.update s.reqInfo.nodeId 0 nodeId } }
  | failbackSignal (view : View cfg) (nodeId : Int) :
      Stepped cfg s (.failbackSignal view nodeId) (s.failbackSignal cfg view nodeId)
  | closeIdle : Stepped cfg s .closeIdle { s with reqInfo := { s.reqInfo with kind := .closeIdle } }
  | signal : Stepped cfg s .signal { s with signalPending := true }
  | startRecovery (view : View cfg) (recoveryNode : Int) :
      Stepped cfg s (.startRecovery view recoveryNode) (s.startRecovery cfg view recoveryNode)
  | newConnection (i : Int) (isNode : cfg.IsNode i) :
      Stepped cfg s (.newConnection i) { s with status := Function.update s.status i .up }
  | failoverHandler (signalled : s.signalPending = true) (letsIn : s.phase.letsIn = true) :
      Stepped cfg s .failoverHandler { s with signalPending := false, failoverRequest := true }
  | wakeUp (phase : s.phase = .waiting) : Stepped cfg s .wakeUp { s with phase := .checking }
  | checkRequest (phase : s.phase = .checking) : Stepped cfg s .checkRequest
      { s with phase := if s.failoverRequest then .called .checkRequest else .waiting }
  | healthCheckFailed (sts : Int) (phase : s.phase = .waiting)
      (finds : s.healthCheckFinds cfg sts = true) : Stepped cfg s (.healthCheckFailed sts)
      { s with
        reqInfo := { s.reqInfo with kind := .nodeDown }
        phase := .reporting sts
        used := s.used ++ [sts] }
  | healthCheckNodeId {sts : Int} (phase : s.phase = .reporting sts) : Stepped cfg s .healthCheckNodeId
      { s with
        reqInfo := { s.reqInfo with nodeId := Function.update s.reqInfo.nodeId 0 sts }
        phase := .called .healthCheck
        accepted := sts :: s.accepted
        owed := sts :: s.owed }
  | lock {caller : Caller} (phase : s.phase = .called caller) : Stepped cfg s .lock (s.lock caller)
  | testFailback {caller : Caller} (phase : s.phase = .locked caller) :
      Stepped cfg s .testFailback (s.testFailback cfg caller)
  | dispatch {caller : Caller} {nodeId : Int} (phase : s.phase = .tested caller nodeId) :
      Stepped cfg s .dispatch (s.dispatch cfg caller nodeId)
  | choosePrimary {caller : Caller} {nodeId : Int} {nodes : List Int} {newMaster : Int}
      (phase : s.phase = .chosen caller nodeId nodes newMaster) :
      Stepped cfg s .choosePrimary (s.choosePrimary cfg caller nodeId nodes newMaster)
  | checkRequestAgain {caller : Caller} {nodeId : Int} {nodes : List Int} {newMaster : Int}
      (phase : s.phase = .searching caller nodeId nodes newMaster false) :
      Stepped cfg s .checkRequestAgain { s with failoverRequest := false }
  | followPrimary {caller : Caller} {nodeId : Int} {nodes : List Int} {newMaster newPrimary : Int}
      {promoted : Bool} (found : Int) (below : Bool)
      (phase : s.phase = .searching caller nodeId nodes newMaster promoted)
      (primary : if promoted then newPrimary = nodeId
        else newPrimary = found ∧ s.mayFind cfg found = true) :
      Stepped cfg s (.followPrimary found below)
        (s.followPrimary cfg caller nodeId nodes newMaster newPrimary below)
  | saveNodeIds {caller : Caller} {nodeId newPrimary newMaster : Int}
      (phase : s.phase = .finishing caller nodeId newPrimary newMaster) :
      Stepped cfg s .saveNodeIds (s.saveNodeIds caller nodeId newPrimary newMaster)
  | clearRequest {caller : Caller} (phase : s.phase = .returned caller) :
      Stepped cfg s .clearRequest (s.clearRequest caller)

/-- What a step does, by the event. -/
theorem stepped_of_step {cfg : FailoverConfig} {s t : ParentState} {e : ParentEvent cfg}
    (hstep : step cfg s e = some t) : Stepped cfg s e t := by
  cases e with
  | degenerateBackendSet view nodeIdSet =>
    simp only [step] at hstep
    split at hstep
    · cases hstep
    · rename_i hnot
      simp only [Bool.or_eq_true, decide_eq_true_eq, not_or, Nat.not_lt, Bool.not_eq_true] at hnot
      cases hstep
      exact .degenerateBackendSet view nodeIdSet hnot.1 hnot.2
  | promoteBackend view nodeId =>
    simp only [step] at hstep
    split at hstep
    · cases hstep
    · rename_i hnot
      cases hstep
      exact .promoteBackend view nodeId (eq_false_of_ne_true hnot)
  | failbackKind =>
    cases hstep
    exact .failbackKind
  | failbackNodeId nodeId =>
    cases hstep
    exact .failbackNodeId nodeId
  | failbackSignal view nodeId =>
    cases hstep
    exact .failbackSignal view nodeId
  | closeIdle =>
    cases hstep
    exact .closeIdle
  | signal =>
    cases hstep
    exact .signal
  | startRecovery view recoveryNode =>
    cases hstep
    exact .startRecovery view recoveryNode
  | newConnection i =>
    simp only [step] at hstep
    split at hstep
    · rename_i hnode
      cases hstep
      exact .newConnection i hnode
    · cases hstep
  | failoverHandler =>
    simp only [step] at hstep
    split at hstep
    · rename_i hin
      cases hstep
      obtain ⟨hsignalled, hlets⟩ := Bool.and_eq_true_iff.1 hin
      exact .failoverHandler hsignalled hlets
    · cases hstep
  | wakeUp =>
    simp only [step] at hstep
    split at hstep
    · rename_i hphase
      cases hstep
      exact .wakeUp hphase
    · cases hstep
  | checkRequest =>
    simp only [step] at hstep
    split at hstep
    · rename_i hphase
      cases hstep
      exact .checkRequest hphase
    · cases hstep
  | healthCheckFailed sts =>
    simp only [step] at hstep
    split at hstep
    · rename_i hfound
      cases hstep
      exact .healthCheckFailed sts hfound.1 hfound.2
    · cases hstep
  | healthCheckNodeId =>
    simp only [step] at hstep
    split at hstep
    · rename_i hphase
      cases hstep
      exact .healthCheckNodeId hphase
    · cases hstep
  | lock =>
    simp only [step] at hstep
    split at hstep
    · rename_i hphase
      cases hstep
      exact .lock hphase
    · cases hstep
  | testFailback =>
    simp only [step] at hstep
    split at hstep
    · rename_i hphase
      cases hstep
      exact .testFailback hphase
    · cases hstep
  | dispatch =>
    simp only [step] at hstep
    split at hstep
    · rename_i hphase
      cases hstep
      exact .dispatch hphase
    · cases hstep
  | choosePrimary =>
    simp only [step] at hstep
    split at hstep
    · rename_i hphase
      cases hstep
      exact .choosePrimary hphase
    · cases hstep
  | checkRequestAgain =>
    simp only [step] at hstep
    split at hstep
    · rename_i hphase
      cases hstep
      exact .checkRequestAgain hphase
    · cases hstep
  | followPrimary found below =>
    simp only [step] at hstep
    split at hstep
    · rename_i promoted hphase
      cases promoted with
      | true =>
        cases hstep
        exact .followPrimary found below hphase rfl
      | false =>
        simp only [Bool.false_eq_true, if_false] at hstep
        split at hstep
        · rename_i hfind
          cases hstep
          exact .followPrimary found below hphase ⟨rfl, hfind⟩
        · cases hstep
    · cases hstep
  | saveNodeIds =>
    simp only [step] at hstep
    split at hstep
    · rename_i hphase
      cases hstep
      exact .saveNodeIds hphase
    · cases hstep
  | clearRequest =>
    simp only [step] at hstep
    split at hstep
    · rename_i hphase
      cases hstep
      exact .clearRequest hphase
    · cases hstep

/-! ### What requests leave alone -/

section

variable {cfg : FailoverConfig} {s : ParentState} {view : View cfg} {nodeId : Int} {nodeIdSet : List Int}

theorem phase_degenerateBackendSet :
    (s.degenerateBackendSet cfg view nodeIdSet).phase = s.phase := by
  unfold degenerateBackendSet
  split <;> rfl

theorem status_degenerateBackendSet :
    (s.degenerateBackendSet cfg view nodeIdSet).status = s.status := by
  unfold degenerateBackendSet
  split <;> rfl

theorem phase_promoteBackend : (s.promoteBackend cfg view nodeId).phase = s.phase := by
  unfold promoteBackend
  split
  · split
    · rfl
    · extract_lets u
      split <;> rfl
  · rfl

theorem status_promoteBackend : (s.promoteBackend cfg view nodeId).status = s.status := by
  unfold promoteBackend
  split
  · split
    · rfl
    · extract_lets u
      split <;> rfl
  · rfl

theorem phase_failbackSignal : (s.failbackSignal cfg view nodeId).phase = s.phase := by
  unfold failbackSignal
  split
  · rfl
  · split <;> rfl

theorem status_failbackSignal : (s.failbackSignal cfg view nodeId).status = s.status := by
  unfold failbackSignal
  split
  · rfl
  · split <;> rfl

theorem phase_startRecovery :
    (s.startRecovery cfg view nodeId).phase = s.phase := by
  unfold startRecovery
  extract_lets u
  split <;> rfl

theorem status_startRecovery :
    (s.startRecovery cfg view nodeId).status = s.status := by
  unfold startRecovery
  extract_lets u
  split <;> rfl

theorem status_lock {caller : Caller} : (s.lock caller).status = s.status := by
  unfold lock
  split <;> rfl

end

/-- `failover()` from the test of `failover_request` to the return, where no primary is found. -/
def runFailover {cfg : FailoverConfig} : List (ParentEvent cfg) :=
  [.wakeUp, .checkRequest, .lock, .testFailback, .dispatch, .choosePrimary,
   .followPrimary (-1) false, .saveNodeIds, .clearRequest]

/-- The parent after its start: the mailbox is empty, and every backend that is configured has been
used before or is to be connected. -/
structure Started (cfg : FailoverConfig) (s : ParentState) : Prop where
  kind : s.reqInfo.kind = .nodeUp
  nodeId : ∀ i, s.reqInfo.nodeId i = -1
  masterNodeId : s.reqInfo.masterNodeId = s.getNextMasterNode cfg
  primaryNodeId : s.reqInfo.primaryNodeId = -1 ∨ cfg.IsNode s.reqInfo.primaryNodeId
  status : ∀ i, cfg.IsNode i → s.status i = .connectWait ∨ s.status i = .down
  signalPending : s.signalPending = false
  failoverRequest : s.failoverRequest = false
  phase : s.phase = .waiting
  accepted : s.accepted = []
  owed : s.owed = []
  used : s.used = []

/-- Three replicas; node 0 may not be degenerated. -/
def replicas : FailoverConfig where
  replicationMode := true
  masterSlaveMode := false
  parallelMode := false
  loadBalanceMode := true
  replicateSelect := false
  masterSlaveSubMode := "stream"
  delayThreshold := 0
  ignoreLeadingWhiteSpace := true
  numInitChildren := 32
  failoverIfAffectedTuplesMismatch := false
  resetQueryList := ["ABORT", "DISCARD ALL"]
  listsPatterns := []
  numWhiteFunctionList := 0
  numBlackFunctionList := 0
  modesExclusive := rfl
  numBackends := 3
  disallowToFailover := fun i => i == 0
  followMasterCommand := false
  numBackends_le := by decide

/-- A process without a session, for which all replicas are up. -/
def replicasUp : View replicas where
  sent := fun _ => true
  status := fun i => if 0 ≤ i ∧ i < 3 then .connectWait else .unused
  unused := by
    intro i h
    exact if_neg h

/-- The parent of the replicas. -/
def replicasStart : ParentState where
  status := replicasUp.status
  reqInfo := ⟨.nodeUp, fun _ => -1, 0, -1⟩
  signalPending := false
  failoverRequest := false
  phase := .waiting
  accepted := []
  owed := []
  used := []

theorem started_replicas : replicasStart.Started replicas where
  kind := rfl
  nodeId := fun _ => rfl
  masterNodeId := by decide +kernel
  primaryNodeId := Or.inl rfl
  status := by
    intro i h
    exact Or.inl (if_pos h)
  signalPending := rfl
  failoverRequest := rfl
  phase := rfl
  accepted := rfl
  owed := rfl
  used := rfl

end ParentState

end PgPool
