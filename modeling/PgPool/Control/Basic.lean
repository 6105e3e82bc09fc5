import PgPool.Child

/-!
# The control part of a session

Which query is in progress, which query contexts exist and what refers to them: the part of a
session that deciding where to send, sending, and the transaction commands leave alone.  The
functions of those kinds are listed here; the others are described by what they do to the control
part.
-/

namespace PgPool

/-- The control part of a session. -/
structure Control where
  inProgress : Bool
  doingExtendedQueryMessage : Bool
  commandSuccess : Bool
  skipReadingFromBackends : Bool
  ignoreTillSync : Bool
  queryContext : Option QcId
  uncompletedMessage : Option SentMessage
  messageList : List SentMessage
  statement : QcId → String × Node
  nextContext : QcId
  destroyed : QcId → Nat
  nextMessage : MsgId

namespace Control

variable (c : Control)

def setInProgress (b : Bool) : Control := { c with inProgress := b }
def setExtended (b : Bool) : Control := { c with doingExtendedQueryMessage := b }
def setSkip (b : Bool) : Control := { c with skipReadingFromBackends := b }
def setIgnore (b : Bool) : Control := { c with ignoreTillSync := b }
def setSuccess : Control := { c with commandSuccess := true }
def setUncompleted (m : Option SentMessage) : Control := { c with uncompletedMessage := m }
def setMessageList (l : List SentMessage) : Control := { c with messageList := l }

/-- The context of a sent message becomes the current one. -/
def setCurrent (qc : QcId) : Control := { c with queryContext := some qc }

/-- `pool_query_context_destroy`. -/
def queryContextDestroy (qc : QcId) : Control :=
  { c with
    inProgress := false
    queryContext := none
    destroyed := fun q => if q = qc then c.destroyed q + 1 else c.destroyed q }

/-- A new query context is the current one. -/
def startQuery (sql : String) (node : Node) : Control :=
  { c with
    inProgress := true
    queryContext := some c.nextContext
    statement := fun q => if q = c.nextContext then (sql, node) else c.statement q
    nextContext := c.nextContext + 1 }

/-- A query that pgpool answers on its own. -/
def answerQuery (sql : String) (node : Node) (skip : Bool) : Control :=
  ((c.startQuery sql node).queryContextDestroy c.nextContext).setSkip
    (c.skipReadingFromBackends || skip)

/-- A new message is sent and not completed yet. -/
def attempt (m : SentMessage) : Control :=
  { c with uncompletedMessage := some m, nextMessage := c.nextMessage + 1 }

/-- A simple query that is sent, with the message of a PREPARE. -/
def simpleQuery (sql : String) (node : Node) : Control :=
  match node with
  | .prepareStmt name _ =>
      (c.startQuery sql node).attempt ⟨c.nextMessage, .Q, .query sql, 0, name, c.nextContext⟩
  | _ => c.startQuery sql node

/-- ReadyForQuery leaves the query context of a PREPARE alone. -/
def isPrepare (qc : QcId) : Bool :=
  c.inProgress && c.commandSuccess && (c.statement qc).2.tag == .prepareStmt

/-- What happens before an extended query message is processed. -/
def startExtended : Control := (c.setExtended true).setInProgress true

/-- The in-progress flag is cleared after a success. -/
def endQuery : Control := c.setInProgress (c.inProgress && !c.commandSuccess)

/-- What ReadyForQuery does to the control part. -/
def readyForQuery : Control :=
  if c.doingExtendedQueryMessage then c.endQuery
  else
    match c.queryContext with
    | none => c.endQuery
    | some qc => if c.isPrepare qc then c.endQuery else c.endQuery.queryContextDestroy qc

end Control

namespace Session

variable {env : Setup} {ans : Answers} {s t : Session} {qc : QcId} {node : Node}

/-- The control part. -/
def control (s : Session) : Control where
  inProgress := s.inProgress
  doingExtendedQueryMessage := s.doingExtendedQueryMessage
  commandSuccess := s.commandSuccess
  skipReadingFromBackends := s.skipReadingFromBackends
  ignoreTillSync := s.ignoreTillSync
  queryContext := s.queryContext
  uncompletedMessage := s.uncompletedMessage
  messageList := s.messageList
  statement := fun q => ((s.contexts q).originalQuery, (s.contexts q).parseTree)
  nextContext := s.nextContext
  destroyed := s.destroyed
  nextMessage := s.nextMessage

section

variable (s)

@[simp] theorem control_setQueryInProgress :
    s.setQueryInProgress.control = s.control.setInProgress true := rfl

@[simp] theorem control_unsetQueryInProgress :
    s.unsetQueryInProgress.control = s.control.setInProgress false := rfl

@[simp] theorem control_setDoingExtendedQueryMessage :
    s.setDoingExtendedQueryMessage.control = s.control.setExtended true := rfl

@[simp] theorem control_unsetDoingExtendedQueryMessage :
    s.unsetDoingExtendedQueryMessage.control = s.control.setExtended false := rfl

@[simp] theorem control_setSkipReadingFromBackends :
    s.setSkipReadingFromBackends.control = s.control.setSkip true := rfl

@[simp] theorem control_unsetSkipReadingFromBackends :
    s.unsetSkipReadingFromBackends.control = s.control.setSkip false := rfl

@[simp] theorem control_setIgnoreTillSync :
    s.setIgnoreTillSync.control = s.control.setIgnore true := rfl

@[simp] theorem control_unsetIgnoreTillSync :
    s.unsetIgnoreTillSync.control = s.control.setIgnore false := rfl

@[simp] theorem control_setCommandSuccess : s.setCommandSuccess.control = s.control.setSuccess := rfl

@[simp] theorem control_setWritingTransaction : s.setWritingTransaction.control = s.control := rfl

@[simp] theorem control_unsetWritingTransaction : s.unsetWritingTransaction.control = s.control := rfl

@[simp] theorem control_setFailedTransaction : s.setFailedTransaction.control = s.control := rfl

@[simp] theorem control_setTransactionIsolation (isolation : Isolation) :
    (s.setTransactionIsolation isolation).control = s.control := rfl

@[simp] theorem control_forgetTransaction : s.forgetTransaction.control = s.control := rfl

@[simp] theorem control_setMismatchNtuples (b : Bool) :
    (s.setMismatchNtuples b).control = s.control := rfl

@[simp] theorem control_setAllowCloseTransaction (b : Bool) :
    (s.setAllowCloseTransaction b).control = s.control := rfl

@[simp] theorem control_setUncompletedMessage (m : Option SentMessage) :
    (s.setUncompletedMessage m).control = s.control.setUncompleted m := rfl

@[simp] theorem control_setMessageList (l : List SentMessage) :
    (s.setMessageList l).control = s.control.setMessageList l := rfl

@[simp] theorem control_setQueryContext (q : QcId) :
    (s.setQueryContext q).control = s.control.setCurrent q := rfl

@[simp] theorem control_queryContextDestroy (q : QcId) :
    (s.queryContextDestroy q).control = s.control.queryContextDestroy q := rfl

end

/-! ## Routing and sending -/

/-- Overwriting a context with one for the same statement. -/
theorem control_setContext {c : QueryContext} (hq : c.originalQuery = (s.contexts qc).originalQuery)
    (ht : c.parseTree = (s.contexts qc).parseTree) : (s.setContext qc c).control = s.control := by
  have h : (fun q => (((s.setContext qc c).contexts q).originalQuery,
      ((s.setContext qc c).contexts q).parseTree)) =
      fun q => ((s.contexts q).originalQuery, (s.contexts q).parseTree) := by
    funext q
    by_cases hqc : q = qc
    · subst hqc
      simp [hq, ht]
    · simp [contexts_setContext_ne s c hqc]
  unfold control
  rw [h]
  rfl

@[simp] theorem control_setMap (map : NodeMap) : (s.setMap qc map).control = s.control :=
  control_setContext rfl rfl

@[simp] theorem control_setRewrittenQuery (query : Option String) :
    (s.setRewrittenQuery qc query).control = s.control :=
  control_setContext rfl rfl

@[simp] theorem control_emit (a : Action) : (s.emit a).control = s.control := rfl

@[simp] theorem control_setTstate (nodes : List NodeId) (f : NodeId → TState) :
    (s.setTstate nodes f).control = s.control := rfl

@[simp] theorem control_setMark (i : NodeId) (b : Bool) : (s.setMark i b).control = s.control := rfl

@[simp] theorem control_poolWhereToSend (lk : Lookups) (query : String) :
    (poolWhereToSend env lk qc query node s).control = s.control :=
  control_setContext (s := s) rfl rfl

@[simp] theorem control_poolSendAndWait (msg : BackendMsg) (sendType : Int) (i : NodeId) :
    (poolSendAndWait env qc msg sendType i s).control = s.control := by
  rw [poolSendAndWait_eq]
  exact control_setMap (s := s) _

@[simp] theorem control_sendCalls (calls : List SendCall) :
    (sendCalls env qc calls s).control = s.control := by
  induction calls generalizing s with
  | nil => rfl
  | cons c rest ih => exact ih.trans (control_poolSendAndWait _ _ _)

/-! ## Transactions -/

/-- A relation that the commands of pgpool's own keep to: they add to the history, and they set flags and
the states of the connections. -/
structure OwnCommands (R : Session → Session → Prop) : Prop where
  trans : ∀ {s t u}, R s t → R t u → R s u
  command : ∀ s i command status, R s (s.emit (.command i command status))
  errorCommand : ∀ s i, R s (s.emit (.errorCommand i))
  reported : ∀ s nodes status, R s (s.emit (.reported nodes status))
  same : ∀ {s t : Session}, t.conn.major = s.conn.major → t.conn.trace = s.conn.trace →
    t.resetContext = s.resetContext → t.contexts = s.contexts → t.control = s.control → R s t

namespace OwnCommands

variable {R : Session → Session → Prop} (own : OwnCommands R)

include own

theorem refl (s : Session) : R s s := own.same rfl rfl rfl rfl rfl

theorem setTstate (nodes : List NodeId) (f : NodeId → TState) : R s (s.setTstate nodes f) :=
  own.same rfl rfl rfl rfl rfl

theorem doCommand (i : NodeId) (command : Command) (reply : CommandReply) (noReadyForQuery : Bool) :
    R s (s.doCommand i command reply noReadyForQuery) := by
  have hemit : R s (s.emit (.command i command reply.status)) := own.command s i command reply.status
  unfold Session.doCommand
  simp only
  split
  · split
    · exact own.trans hemit (own.setTstate _ _)
    · exact hemit
  · exact hemit
  · split
    · exact hemit
    · exact own.trans hemit (own.setTstate _ _)

theorem startInternalLoop (nodes : List NodeId) : R s (Session.startInternalLoop env ans nodes s).1 := by
  induction nodes generalizing s with
  | nil => exact own.refl s
  | cons i rest ih =>
    unfold Session.startInternalLoop
    split
    · cases ans.beginReply i with
      | none => exact own.refl s
      | some reply =>
        have hcommand : R s (s.doCommand i .beginInternal reply false) := own.doCommand _ _ _ _
        simp only
        split
        · exact hcommand
        · refine own.trans hcommand (own.trans ?_ ih)
          exact own.same rfl rfl rfl rfl rfl
    · exact ih

theorem startInternalTransaction : R s (Session.startInternalTransaction env ans node s).1 := by
  unfold Session.startInternalTransaction
  split
  · exact own.startInternalLoop _
  · exact own.refl s

theorem commitInternal {i : NodeId} (h : Session.commitInternal ans i s = some t) : R s t := by
  unfold Session.commitInternal at h
  cases hr : ans.commitReply i with
  | none => simp [hr] at h
  | some reply =>
    simp only [hr] at h
    split at h
    · cases h
    · cases h
      exact own.trans (own.doCommand _ _ _ _) (own.same rfl rfl rfl rfl rfl)

theorem endInternalLoop {nodes : List NodeId} (h : Session.endInternalLoop env ans nodes s = some t) :
    R s t := by
  induction nodes generalizing s with
  | nil =>
    cases h
    exact own.refl _
  | cons i rest ih =>
    unfold Session.endInternalLoop at h
    split at h
    · cases hc : Session.commitInternal ans i s with
      | none => simp [hc] at h
      | some u =>
        simp only [hc] at h
        exact own.trans (own.commitInternal hc) (ih h)
    · exact ih h

theorem endInternalTransaction (h : Session.endInternalTransaction env ans s = some t) : R s t := by
  unfold Session.endInternalTransaction at h
  cases hl : Session.endInternalLoop env ans env.nodes s with
  | none => simp [hl] at h
  | some u =>
    simp only [hl] at h
    split at h
    · exact own.trans (own.endInternalLoop hl) (own.commitInternal h)
    · cases h
      exact own.endInternalLoop hl

theorem lockCommands (replies : List (NodeId × CommandReply)) :
    R s (replies.foldl (lockCommand env) s) := by
  induction replies generalizing s with
  | nil => exact own.refl s
  | cons p rest ih =>
    refine own.trans ?_ ih
    unfold lockCommand
    split
    · exact own.doCommand _ _ _ _
    · exact own.refl s

theorem insertLock (h : Session.insertLock env ans s = some t) : R s t := by
  unfold Session.insertLock at h
  split at h
  · cases h
    exact own.refl _
  · split at h
    · cases h
    · cases h
      exact own.lockCommands _

theorem closeStandbyLoop {nodes : List NodeId} (h : Session.closeStandbyLoop env ans nodes s = some t) :
    R s t := by
  induction nodes generalizing s with
  | nil =>
    cases h
    exact own.refl _
  | cons i rest ih =>
    unfold Session.closeStandbyLoop at h
    split at h
    · cases hr : ans.standbyReply i with
      | none => simp [hr] at h
      | some reply =>
        simp only [hr] at h
        split at h
        · cases h
        · exact own.trans (own.doCommand _ _ _ _) (ih h)
    · exact ih h

theorem errorCommands (nodes : List NodeId) :
    R s (nodes.foldl (fun s i => s.emit (.errorCommand i)) s) := by
  induction nodes generalizing s with
  | nil => exact own.refl s
  | cons i rest ih => exact own.trans (own.errorCommand s i) ih

theorem abortMismatch (h : Session.abortMismatch env ans s = some t) : R s t := by
  unfold Session.abortMismatch at h
  split at h
  · split at h
    · cases h
    · cases h
      exact own.trans (own.errorCommands _) (own.same rfl rfl rfl rfl rfl)
  · cases h
    exact own.refl _

theorem readStates : R s (Session.readStates env ans s) := by
  unfold Session.readStates
  split
  · exact own.refl s
  · exact own.trans (own.reported s _ _) (own.setTstate _ _)

theorem noteStatement {c : QueryContext} (h : Session.noteStatement env ans c s = some t) : R s t := by
  unfold Session.noteStatement at h
  split at h
  · cases h
    exact own.same rfl rfl rfl rfl rfl
  · split at h
    · cases h
      exact own.same rfl rfl rfl rfl rfl
    · split at h
      · exact own.closeStandbyLoop h
      · split at h
        · cases h
          exact own.same rfl rfl rfl rfl rfl
        · cases h
          exact own.refl s

end OwnCommands

/-- Commands of pgpool's own leave the control part alone. -/
theorem ownCommands_control : OwnCommands fun s t => t.control = s.control where
  trans h h' := h'.trans h
  command _ _ _ _ := rfl
  errorCommand _ _ := rfl
  reported _ _ _ := rfl
  same _ _ _ _ h := h

@[simp] theorem control_startInternalTransaction :
    (startInternalTransaction env ans node s).1.control = s.control :=
  ownCommands_control.startInternalTransaction

@[simp] theorem control_readStates : (readStates env ans s).control = s.control :=
  ownCommands_control.readStates

/-! ## ReadyForQuery -/

theorem control_foldl_emit {α : Type} (f : Session → α → Action) (l : List α) :
    (l.foldl (fun s x => s.emit (f s x)) s).control = s.control := by
  induction l generalizing s with
  | nil => rfl
  | cons x rest ih => exact ih.trans (control_emit _)

theorem control_noteReady (h : noteReady env ans s = some t) :
    t.control = s.control.endQuery := by
  have hend : s.control.endQuery = s.control.setInProgress (s.inProgress && !s.commandSuccess) := rfl
  unfold noteReady at h
  cases hp : s.inProgress <;> cases hc : s.commandSuccess <;> rw [hend, hp, hc] <;>
    rw [hp, hc] at h <;> simp only [Bool.and_self, Bool.and_false, Bool.and_true, Bool.not_true,
      Bool.not_false, Bool.false_eq_true, if_true, if_false] at h ⊢
  · cases h
    simp [control, Control.setInProgress, hp]
  · cases h
    simp [control, Control.setInProgress, hp]
  · cases h
    simp [control, Control.setInProgress, hp]
  · cases hq : s.currentQuery with
    | none =>
      simp only [hq] at h
      cases h
      rfl
    | some c =>
      simp only [hq, Option.map_eq_some_iff] at h
      obtain ⟨u, hu, rfl⟩ := h
      rw [control_unsetQueryInProgress, ownCommands_control.noteStatement hu]

theorem control_releaseContext (h : t.control = s.control.endQuery) :
    (t.releaseContext s.readyStatement).control = s.control.readyForQuery := by
  have hx : t.doingExtendedQueryMessage = s.control.doingExtendedQueryMessage :=
    congrArg Control.doingExtendedQueryMessage h
  have hqc : t.queryContext = s.control.queryContext := congrArg Control.queryContext h
  have hdestroy : ∀ qc, (t.queryContextDestroy qc).control =
      s.control.endQuery.queryContextDestroy qc := by
    intro qc
    rw [← h]
    rfl
  unfold releaseContext Control.readyForQuery
  rw [hx, hqc]
  split
  · exact h
  · cases hq : s.control.queryContext with
    | none => exact h
    | some qc =>
      have hq' : s.queryContext = some qc := hq
      have hprep : s.control.isPrepare qc = (s.inProgress && s.commandSuccess &&
          (s.contexts qc).parseTree.tag == .prepareStmt) := rfl
      unfold readyStatement currentQuery
      simp only [hprep, hq']
      cases s.inProgress <;> cases s.commandSuccess
      · exact hdestroy qc
      · exact hdestroy qc
      · exact hdestroy qc
      · by_cases htag : (s.contexts qc).parseTree.tag = .prepareStmt
        · simpa [htag] using h
        · simpa [htag] using hdestroy qc

theorem control_readyForQuery (h : readyForQuery env ans s = some t) :
    t.control = s.control.readyForQuery := by
  unfold readyForQuery at h
  cases hm : abortMismatch env ans (s.emit (.ready (s.validNodes env))) with
  | none => simp [hm] at h
  | some u =>
    simp only [hm] at h
    have hu : u.control = s.control :=
      (ownCommands_control.abortMismatch hm).trans (control_emit _)
    cases he : (if u.allowCloseTransaction then endInternalTransaction env ans u else some u) with
    | none => simp [he] at h
    | some v =>
      simp only [he] at h
      have hv : v.control = s.control := by
        split at he
        · exact (ownCommands_control.endInternalTransaction he).trans hu
        · cases he
          exact hu
      have hr : (readStates env ans v).control = s.control := control_readStates.trans hv
      cases hn : noteReady env ans (readStates env ans v) with
      | none => simp [hn] at h
      | some w =>
        simp only [hn, Option.some.injEq] at h
        rw [← h, ← hr]
        exact control_releaseContext (control_noteReady hn)

end Session

end PgPool
