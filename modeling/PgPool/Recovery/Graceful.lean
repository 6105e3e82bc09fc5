import PgPool.Failover.Mailbox

/-!
# Waiting for a failover with clients kept out

The pcp child detaches or promotes a node gracefully, or recovers one: it sets `InRecovery`, asks the
parent for a failover, and waits until the handler of SIGUSR2 has set `pcp_wakeup_request`.  In the
meantime the children that have a client to accept pause.  The three wake each other by signals, and
steps are cut where another process or a handler can come in between.  A second signal of a kind is
lost while the first one is pending.
-/

namespace PgPool

/-- `failover()` is running. -/
def FailoverPhase.running : FailoverPhase → Bool
  | .called _ | .locked _ | .tested _ _ | .chosen _ _ _ _ | .searching _ _ _ _ _
  | .finishing _ _ _ _ => true
  | _ => false

/-- `failover()` has returned. -/
def FailoverPhase.over : FailoverPhase → Bool
  | .returned _ => true
  | _ => false

/-- The parent is in `CHECK_REQUEST`, or reaches it again from within `failover()`. -/
def FailoverPhase.checks : FailoverPhase → Bool
  | .checking | .searching _ _ _ _ false => true
  | _ => false

/-- `CHECK_REQUEST`, where it comes to `failover_request`. -/
def ParentEvent.checks {cfg : FailoverConfig} : ParentEvent cfg → Bool
  | .checkRequest | .checkRequestAgain => true
  | _ => false

namespace Graceful

/-- What the pcp child has been asked to do. -/
inductive Command where
  | detach (nodeId : Int)
  | promote (nodeId : Int)
  | recover (nodeId : Int)
  deriving DecidableEq, Repr

/-- Where the pcp child is. -/
inductive PcpStage where
  | idle
  /-- `start_recovery`, from the 1st stage on. -/
  | recovering (nodeId : Int)
  /-- `wait_connection_closed` -/
  | closing (command : Command)
  /-- All frontends have gone. -/
  | closed (command : Command)
  /-- The request is made; `pcp_wakeup_request` is cleared next. -/
  | requested
  /-- `pcp_wakeup_request` is cleared; `send_failback_request` in its three steps. -/
  | failback (nodeId : Int)
  | failbackKind (nodeId : Int)
  | failbackNodeId (nodeId : Int)
  /-- `while (!pcp_wakeup_request)` -/
  | waiting
  /-- `finish_recovery`, before and after `*InRecovery = 0`. -/
  | finishing
  | signalling
  deriving DecidableEq, Repr

/-- Where a child is. -/
inductive SleepStage where
  | elsewhere
  /-- `while (*InRecovery == 1)` -/
  | testing
  /-- The test was true, and `pause()` comes next. -/
  | pausing
  | paused
  deriving DecidableEq, Repr

/-- A child, and whether a SIGUSR2 to it is pending. -/
structure Sleeper where
  stage : SleepStage
  signal : Bool
  deriving DecidableEq, Repr

/-- What a child does next. -/
inductive SleeperEvent where
  /-- `retry_accept` -/
  | reach
  | test
  | pause
  /-- SIGUSR2, or any other signal. -/
  | wakeupHandler
  | interrupt
  /-- The process is replaced by a new one. -/
  | restart
  deriving DecidableEq, Repr

def Sleeper.step (inRecovery : Bool) (c : Sleeper) : SleeperEvent → Option Sleeper
  | .reach => if c.stage = .elsewhere then some { c with stage := .testing } else none
  | .test =>
      if c.stage = .testing then
        some { c with stage := if inRecovery then .pausing else .elsewhere }
      else none
  | .pause => if c.stage = .pausing then some { c with stage := .paused } else none
  | .wakeupHandler =>
      if c.signal then
        some ⟨if c.stage = .paused then .testing else c.stage, false⟩
      else none
  | .interrupt => if c.stage = .paused then some { c with stage := .testing } else none
  | .restart => some ⟨.elsewhere, false⟩

/-- The parent, the pcp child and the children. -/
structure System where
  parent : ParentState
  /-- A SIGUSR2 to the parent is pending. -/
  parentSignal : Bool
  wakeupRequest : Bool
  inRecovery : Bool
  pcp : PcpStage
  pcpWakeupRequest : Bool
  /-- A SIGUSR2 to the pcp child is pending. -/
  pcpSignal : Bool
  child : Nat → Sleeper

/-- A step of one of the processes. -/
inductive Event (cfg : FailoverConfig) where
  /-- Whatever the parent does about failovers, and the requests of others. -/
  | parent (e : ParentEvent cfg)
  /-- The parent's `wakeup_handler` and `wakeup_children`. -/
  | parentWakeupHandler
  | wakeupChildren
  /-- The pcp child. -/
  | detachNode (nodeId : Int)
  | promoteNode (nodeId : Int)
  | waitConnectionClosed (timedOut : Bool)
  | request (view : View cfg)
  | clearWakeupRequest
  | startRecovery (view : View cfg) (nodeId : Int)
  | secondStage
  | recoveryFails
  | restarted
  | writeKind
  | writeNodeId
  | sendFailback (view : View cfg)
  | leaveWait
  | clearInRecovery
  | signalParent
  | pcpWakeupHandler
  | child (i : Nat) (e : SleeperEvent)

section

variable (cfg : FailoverConfig)

/-- `pool_promote_node` is called. -/
def promotes (s : System) (nodeId : Int) : Bool :=
  decide (cfg.IsNode nodeId) && cfg.streaming && nodeId != s.parent.reqInfo.primaryNodeId

/-- `start_recovery` is called. -/
def recovers (s : System) (nodeId : Int) : Bool :=
  (cfg.replicationMode || cfg.streaming) &&
    !(cfg.streaming && nodeId == s.parent.reqInfo.primaryNodeId)

/-- A step of the parent's; every return from `failover()` comes with a SIGUSR2 to the pcp child. -/
def parentStep (s : System) (e : ParentEvent cfg) : Option System :=
  -- `wakeup_request` is looked at before `failover_request`
  if e.checks && s.wakeupRequest then none
  else
    (s.parent.step cfg e).map fun p =>
      let nested := s.parent.phase.running && e.checks && s.parent.failoverRequest
      { s with
        parent := p
        pcpSignal := s.pcpSignal || (p.phase.over && !s.parent.phase.over) || nested }

/-- `notice_backend_error` or `promote_backend`. -/
def requestStep (s : System) (view : View cfg) : Command → Option System
  | .detach nodeId =>
      (s.parent.step cfg (.degenerateBackendSet view [nodeId])).map fun p =>
        { s with parent := p, pcp := .requested }
  | .promote nodeId =>
      (s.parent.step cfg (.promoteBackend view nodeId)).map fun p =>
        { s with parent := p, pcp := .requested }
  | .recover _ => none

/-- One step. -/
def step (s : System) : Event cfg → Option System
  | .parent e => parentStep cfg s e
  | .parentWakeupHandler =>
      if s.parentSignal && s.parent.phase.letsIn then
        some { s with parentSignal := false, wakeupRequest := true }
      else none
  | .wakeupChildren =>
      if s.wakeupRequest && s.parent.phase.checks then
        some { s with wakeupRequest := false, child := fun i => { s.child i with signal := true } }
      else none
  | .detachNode nodeId =>
      if s.pcp = .idle then some { s with inRecovery := true, pcp := .closing (.detach nodeId) }
      else none
  | .promoteNode nodeId =>
      if s.pcp = .idle ∧ promotes cfg s nodeId = true then
        some { s with inRecovery := true, pcp := .closing (.promote nodeId) }
      else none
  | .waitConnectionClosed timedOut =>
      match s.pcp with
      | .closing command => some { s with pcp := if timedOut then .finishing else .closed command }
      | _ => none
  | .request view =>
      match s.pcp with
      | .closed command => requestStep cfg s view command
      | _ => none
  | .clearWakeupRequest =>
      if s.pcp = .requested then some { s with pcpWakeupRequest := false, pcp := .waiting } else none
  | .startRecovery view nodeId =>
      if s.pcp = .idle ∧ recovers cfg s nodeId = true then
        some { s with
          parent := s.parent.startRecovery cfg view nodeId
          pcp := if s.parent.validFor cfg view nodeId then .finishing else .recovering nodeId }
      else none
  | .secondStage =>
      match s.pcp with
      | .recovering nodeId =>
          if cfg.replicationMode then
            some { s with inRecovery := true, pcp := .closing (.recover nodeId) }
          else some { s with pcp := .closed (.recover nodeId) }
      | _ => none
  | .recoveryFails =>
      match s.pcp with
      | .recovering _ | .closed (.recover _) => some { s with pcp := .finishing }
      | _ => none
  | .restarted =>
      match s.pcp with
      | .closed (.recover nodeId) => some { s with pcpWakeupRequest := false, pcp := .failback nodeId }
      | _ => none
  | .writeKind =>
      match s.pcp with
      | .failback nodeId =>
          (s.parent.step cfg .failbackKind).map fun p =>
            { s with parent := p, pcp := .failbackKind nodeId }
      | _ => none
  | .writeNodeId =>
      match s.pcp with
      | .failbackKind nodeId =>
          (s.parent.step cfg (.failbackNodeId nodeId)).map fun p =>
            { s with parent := p, pcp := .failbackNodeId nodeId }
      | _ => none
  | .sendFailback view =>
      match s.pcp with
      | .failbackNodeId nodeId =>
          (s.parent.step cfg (.failbackSignal view nodeId)).map fun p =>
            { s with parent := p, pcp := .waiting }
      | _ => none
  | .leaveWait =>
      if s.pcp = .waiting ∧ s.pcpWakeupRequest = true then
        some { s with pcpWakeupRequest := false, pcp := .finishing }
      else none
  | .clearInRecovery =>
      if s.pcp = .finishing then some { s with inRecovery := false, pcp := .signalling } else none
  | .signalParent =>
      if s.pcp = .signalling then some { s with parentSignal := true, pcp := .idle } else none
  | .pcpWakeupHandler =>
      if s.pcpSignal then some { s with pcpSignal := false, pcpWakeupRequest := true } else none
  | .child i e =>
      ((s.child i).step s.inRecovery e).map fun c =>
        { s with child := Function.update s.child i c }

end

/-- Nobody waits yet. -/
structure Started (cfg : FailoverConfig) (s : System) : Prop where
  parent : s.parent.Started cfg
  pcp : s.pcp = .idle
  awake : ∀ i, (s.child i).stage = .elsewhere

end Graceful

end PgPool
