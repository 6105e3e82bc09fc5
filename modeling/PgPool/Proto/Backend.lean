import PgPool.Proto.Transaction

/-!
# Replies from the backends

`ProcessBackendResponse` of `pool_proto_modules.c` with the functions it calls for the replies that
change the state of the session, and `CompletedResponse` and `ErrorResponse` of `pool_proto2.c`.
-/

namespace PgPool

/-- The tags that `CompletedResponse` looks at.  `ROLLBACK` is also that of ROLLBACK TO SAVEPOINT. -/
inductive CommandTag where
  | begin | commit | rollback | other
  deriving DecidableEq, Repr

/-- The transaction state that protocol V2 takes a tag for. -/
def CommandTag.v2State : CommandTag → Option TState
  | .begin => some .T
  | .commit | .rollback => some .I
  | .other => none

/-- A reply that is read from the nodes.  `mismatch` tells whether they report different numbers of
rows, `fatal` whether an error is FATAL or PANIC; `copyIn` carries the messages that the frontend
then sends. -/
inductive Reply where
  | readyForQuery
  | parseComplete
  | bindComplete
  | closeComplete
  | errorResponse (fatal : Bool)
  | commandComplete (tag : CommandTag) (effect : TxnEffect) (mismatch : Bool)
  | emptyQuery
  | rowDescription
  | noData
  | portalSuspended
  | copyIn (messages : List ForwardedMsg)
  | other

/-- `statecmp(s1, s2) < 0`. -/
def QueryState.below (s1 : QueryState) : QueryState → Bool
  | .unparsed => false
  | .parseComplete => s1 == .unparsed
  | .bindComplete => s1 == .unparsed || s1 == .parseComplete
  | .executeComplete => s1 != .executeComplete

namespace Session

section

variable (env : Setup) (ans : Answers)

/-- `pool_set_query_state`. -/
def setQueryState (qc : QcId) (state : QueryState) (s : Session) : Session :=
  let c := s.contexts qc
  s.setContext qc
    { c with
      queryState := fun i =>
        if i < env.numBackends ∧ c.whereToSend i = true ∧ (c.queryState i).below state = true then
          state
        else c.queryState i }

/-- `ParseComplete` and `BindComplete`. -/
def completeMessage (state : QueryState) (s : Session) : Session :=
  match s.uncompletedMessage with
  | none => s
  | some m =>
      let s := (s.emit (.completed m (s.validNodes env))).addSentMessage m
      (setQueryState env m.queryContext state s).setUncompletedMessage none

/-- `CloseComplete`. -/
def closeComplete (s : Session) : Option Session :=
  match s.uncompletedMessage with
  | none => none
  | some m => some ((s.removeSentMessage m.kind m.name).1.setUncompletedMessage none)

/-- `CommandComplete` for a PREPARE. -/
def completePrepare (s : Session) : Session :=
  match s.uncompletedMessage with
  | none => s
  | some m =>
      ((s.emit (.completed m (s.validNodes env))).addSentMessage m).setUncompletedMessage none

/-- DEALLOCATE, by name or ALL. -/
def deallocate (name : Option String) (s : Session) : Session :=
  match name with
  | none => (s.removeSentMessages .Q).removeSentMessages .P
  | some name => ((s.removeSentMessage .Q name).1.removeSentMessage .P name).1

/-- DISCARD. -/
def discard (target : DiscardMode) (s : Session) : Session :=
  match target with
  | .plans => (s.removeSentMessages .Q).removeSentMessages .P
  | .all => s.clearSentMessageList
  | .temp => s

/-- `CommandComplete` for BEGIN and START TRANSACTION, whose ReadyForQuery may be long in coming in
the extended protocol. -/
def beginTransaction (s : Session) : Session :=
  (s.setTstate (s.validNodes env) fun _ => .T).forgetTransaction

/-- What `CommandComplete` does for the statement of the current query context. -/
def completeStatement (node : Node) (s : Session) : Session :=
  match node with
  | .prepareStmt _ _ => s.completePrepare env
  | .deallocateStmt name => s.deallocate name
  | .discardStmt target => s.discard target
  | node => if isStartTransactionQuery node then s.beginTransaction env else s

/-- `CommandComplete`. -/
def commandComplete (effect : TxnEffect) (mismatch : Bool) (s : Session) : Session :=
  let s := s.emit (.tagged (s.validNodes env) effect)
  let s := match s.queryContext with
    | none => s
    | some qc => completeStatement env (s.contexts qc).parseTree s
  s.setMismatchNtuples (s.mismatchNtuples || mismatch)

/-- The current query is one that `is_select_query` accepts. -/
def selectContext (s : Session) : Option QcId :=
  match s.queryContext with
  | none => none
  | some qc =>
      let c := s.contexts qc
      if isSelectQuery env.toPoolConfig c.parseTree c.originalQuery then some qc else none

/-- `raise_intentional_error_if_need` in master/slave mode: the primary did not see the SELECT. -/
def raiseOnPrimary (s : Session) : Session :=
  match selectContext env s with
  | none => s
  | some qc =>
      if env.masterSlaveMode && s.tstate env.primary == .T && env.primary != s.masterNodeId env then
        (s.setMap qc ((s.contexts qc).whereToSend.set env.primary)).emit (.errorCommand env.primary)
      else s

/-- `raise_intentional_error_if_need` in replication mode. -/
def raiseOnReplicas (s : Session) : Session :=
  match selectContext env s with
  | none => s
  | some qc =>
      if env.replicationMode && s.tstate env.realMasterNodeId == .T && !env.replicateSelect then
        let s := s.setMap qc ((s.contexts qc).whereToSend.setall env)
        ((s.validNodes env).filter (· != env.realMasterNodeId)).foldl
          (fun s i => s.emit (.errorCommand i)) s
      else s

/-- `raise_intentional_error_if_need`. -/
def raiseIntentionalErrorIfNeed (s : Session) : Session :=
  (s.raiseOnPrimary env).raiseOnReplicas env

/-- `ErrorResponse3` gets rid of the uncompleted message by adding it to the list and removing it
again. -/
def dropUncompleted (s : Session) : Session :=
  match s.uncompletedMessage with
  | none => s
  | some m =>
      ((s.addSentMessage m).removeSentMessage m.kind m.name).1.setUncompletedMessage none

/-- `ErrorResponse3`. -/
def errorResponse3 (fatal : Bool) (s : Session) : Option Session :=
  if fatal then none else some ((s.raiseIntentionalErrorIfNeed env).dropUncompleted)

/-- The failed-transaction flag after an error. -/
def noteFailure (s : Session) : Session :=
  if s.tstate (stateNode env) != .I then s.setFailedTransaction else s

/-- A reply that ends the processing of an extended query message. -/
def endExtended (s : Session) : Session :=
  if s.doingExtendedQueryMessage then s.unsetQueryInProgress else s

/-- The command has succeeded and the query is no more in progress. -/
def endMessage (s : Session) : Session := s.setCommandSuccess.unsetQueryInProgress

/-- What the cases for an error and a completed command set. -/
def endError (s : Session) : Session :=
  let s := noteFailure env s.setCommandSuccess
  if s.doingExtendedQueryMessage then s.setIgnoreTillSync.unsetQueryInProgress else s

/-- The switch of `ProcessBackendResponse` for protocol V3. -/
def processReplyV3 (reply : Reply) (s : Session) : Option Session :=
  match reply with
  | .readyForQuery => readyForQuery env ans s
  | .parseComplete => some (s.completeMessage env .parseComplete).endMessage
  | .bindComplete => some (s.completeMessage env .bindComplete).endMessage
  | .closeComplete => s.closeComplete.map endMessage
  | .errorResponse fatal => (s.errorResponse3 env fatal).map (endError env)
  | .commandComplete _ effect mismatch =>
      some (s.commandComplete env effect mismatch).setCommandSuccess.endExtended
  | .emptyQuery | .rowDescription | .noData | .portalSuspended => some s.endExtended
  | .copyIn messages =>
      some (messages.foldl (fun s m => s.emit (.forwarded m (s.validNodes env))) s)
  | .other => some s

/-- `CompletedResponse`. -/
def completedResponse (tag : CommandTag) (effect : TxnEffect) (s : Session) : Session :=
  let s := s.emit (.tagged (s.validNodes env) effect)
  match tag.v2State with
  | none => s
  | some t => s.setTstate (s.masterNodeId env :: s.validNodes env) fun _ => t

/-- `ErrorResponse` of protocol V2. -/
def errorResponse (s : Session) : Session :=
  let s := s.raiseIntentionalErrorIfNeed env
  s.setTstate (s.validNodes env) fun i => if s.tstate i = .T then .E else s.tstate i

/-- The switch of `ProcessBackendResponse` for protocol V2. -/
def processReplyV2 (reply : Reply) (s : Session) : Option Session :=
  match reply with
  | .readyForQuery => readyForQuery env ans s
  | .commandComplete tag effect _ => some (s.completedResponse env tag effect)
  | .errorResponse _ => some (noteFailure env (s.errorResponse env))
  | .copyIn messages =>
      some (messages.foldl (fun s m => s.emit (.forwarded m (s.validNodes env))) s)
  | .emptyQuery | .rowDescription | .other => some s
  -- replies that protocol V2 does not have
  | .parseComplete | .bindComplete | .closeComplete | .noData | .portalSuspended => none

/-- `ProcessBackendResponse`.  Nothing is read while messages are ignored, nor for a query that
pgpool has answered on its own. -/
def processBackendResponse (reply : Reply) (s : Session) : Option Session :=
  if s.ignoreTillSync then some s
  else if s.skipReadingFromBackends then some s.unsetSkipReadingFromBackends
  else
    match s.conn.major with
    | .v3 => processReplyV3 env ans reply s
    | .v2 => processReplyV2 env ans reply s

end

end Session

end PgPool
