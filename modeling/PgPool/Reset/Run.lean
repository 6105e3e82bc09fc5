import PgPool.Control.WellKeyed
import PgPool.Lib.Loop
import PgPool.Relay.Forward

/-!
# The reset run of `pool_process_query`

When a client has gone `pool_process_query` is called once more, to issue the queries of
`reset_query_list` and a DEALLOCATE for each prepared statement that is left.  It reads nothing from the
frontend: a turn of its loop either calls `reset_backend` or `ProcessBackendResponse`.
-/

namespace PgPool

open Session

/-- The node that a query goes to. -/
def Action.sentTo : Action → Option NodeId
  | .sent i _ _ => some i
  | _ => none

def Reply.isReady : Reply → Bool
  | .readyForQuery => true
  | _ => false

namespace Reset

/-- A reply, what pgpool is answered while it processes it, and whether after it data has come from
another node and none from the master. -/
structure Received where
  reply : Reply
  ans : Answers
  skewed : Bool

/-- What the nodes do in a reset run: how the `k`-th query is issued, and what is replied to it before
ReadyForQuery. -/
structure World where
  issue : Nat → Answers
  replies : Nat → List Received
  ready : Nat → Answers × Bool
  plain : ∀ k, ∀ r ∈ replies k, r.reply.isReady = false

/-- The whole reply to a query. -/
def World.reply (w : World) (k : Nat) : List Received :=
  w.replies k ++ [⟨.readyForQuery, (w.ready k).1, (w.ready k).2⟩]

/-- A reset run: `waiting` is the `state` that waits for ReadyForQuery, `unread` what has been replied and
not read, and `issued` the queries. -/
structure ResetRun where
  session : Session
  qcnt : Nat
  waiting : Bool
  unread : List Received
  skewed : Bool
  issued : List String

/-- `state` and `qcnt` are 0 at first; some replies to the client may not have been read. -/
def begin (s : Session) (pending : List Received) : ResetRun where
  session := s
  qcnt := 0
  waiting := false
  unread := pending
  skewed := false
  issued := []

/-- The nodes to which something has been sent since. -/
def sentSince (s t : Session) : List NodeId :=
  (t.conn.trace.take (t.conn.trace.length - s.conn.trace.length)).filterMap Action.sentTo

/-- Some node is read, and the query has been sent to all that are. -/
def asked (env : Setup) (s t : Session) : Bool :=
  !(readKindNodes env t).isEmpty && (readKindNodes env t).all fun i => (sentSince s t).contains i

section

variable (env : Setup) (w : World) (x : ResetRun)

/-- The query that `reset_backend` issues. -/
def ResetRun.query : String :=
  match env.resetQueryList[x.qcnt]? with
  | some query => query
  | none =>
      match x.session.messageList with
      | m :: _ => deallocateQuery m.name
      | [] => ""

/-- The call of `reset_backend` in this turn. -/
def ResetRun.resetBackend : Option (Session × ResetResult) :=
  Session.resetBackend env (w.issue x.issued.length) x.qcnt x.session

/-- Neither `select` nor `ProcessBackendResponse` is called: the buffer of some node is not empty, but that
of the master is. -/
def ResetRun.stalled : Bool := !x.session.inProgress && x.skewed

/-- One turn of the loop.  A query is replied to if the nodes
that are read have got it. -/
def ResetRun.next : ResetRun ⊕ (PoolStatus × ResetRun) :=
  if x.waiting = false then
    match x.resetBackend env w with
    | none => .inr (.stop, x)
    | some (s, .skipped) => .inl { x with session := s, qcnt := x.qcnt + 1 }
    | some (s, .issued) =>
        .inl { x with
          session := s
          qcnt := x.qcnt + 1
          waiting := true
          unread := x.unread ++ if asked env x.session s then w.reply x.issued.length else []
          issued := x.issued ++ [x.query env] }
    | some (s, .done) => .inr (.continue, { x with session := s })
  else if x.stalled then .inl x
  else if x.session.ignoreTillSync then .inl x
  else if x.session.skipReadingFromBackends then
    .inl { x with session := x.session.unsetSkipReadingFromBackends }
  else
    match x.unread with
    -- wait for ever
    | [] => .inl x
    | r :: rest =>
        match processBackendResponse env r.ans r.reply x.session with
        | none => .inr (.error, x)
        | some s =>
            .inl { x with
              session := s
              waiting := !r.reply.isReady
              unread := rest
              skewed := r.skewed }

/-- The loop. -/
def resetLoop (n : Nat) (x : ResetRun) : Option (PoolStatus × ResetRun) :=
  Loop.run (fun x => x.next env w) n x

/-- Every reset query has been issued in its turn, but for an ABORT that is not needed, and every reply has
been read up to ReadyForQuery. -/
structure ResetRun.Restored (x : ResetRun) : Prop where
  issued : (env.resetQueryList.filter fun query => query ≠ "ABORT").Sublist x.issued
  read : ∀ r ∈ x.unread, r.reply.isReady = false

/-- The run ends, having done what it is for. -/
def Resets : Prop :=
  ∃ n y, resetLoop env w n x = some (.continue, y) ∧ ResetRun.Restored env y

/-- Nothing goes wrong in this turn that is not due to pgpool: the connections hold, and no reply is
fatal. -/
def ResetRun.wellFormed : Bool :=
  if x.waiting = false then (x.resetBackend env w).isSome
  else
    match x.unread with
    | [] => true
    | r :: _ =>
        x.session.skipReadingFromBackends ||
          (processBackendResponse env r.ans r.reply x.session).isSome

/-- The query that is issued in this turn goes to the nodes that are read; a reply is looked for. -/
def ResetRun.smooth : Bool :=
  if x.waiting = false then
    match x.resetBackend env w with
    | some (s, .issued) => asked env x.session s
    | _ => true
  else !x.session.ignoreTillSync && (x.session.inProgress || !x.skewed)

end

/-! ## The measure -/

/-- What can still be issued: the reset queries, each of which may add a prepared statement, the messages
of the list, and a message that is being completed. -/
def ResetRun.work (env : Setup) (x : ResetRun) : Nat :=
  2 * (env.resetQueryList.length - x.qcnt) + x.session.messageList.length +
    x.session.uncompletedMessage.isSome.toNat

/-- What can still be read, a reply more than a turn that reads none. -/
def ResetRun.reading (x : ResetRun) : Nat :=
  if x.waiting then 1 + 2 * x.unread.length + x.session.skipReadingFromBackends.toNat else 0

end Reset

namespace Control

variable {c d : Control} {m : SentMessage}

/-- The messages of the list and the one that is being completed. -/
def messages (c : Control) : Nat := c.messageList.length + c.uncompletedMessage.isSome.toNat

theorem length_removeMessage_le (kind : MsgKind) (name : String) :
    (c.removeMessage kind name).messageList.length ≤ c.messageList.length := by
  rw [messageList_removeMessage]
  exact List.eraseP_sublist.length_le

theorem messages_removeMessage_le (kind : MsgKind) (name : String) :
    (c.removeMessage kind name).messages ≤ c.messages := by
  have hlen := length_removeMessage_le (c := c) kind name
  unfold messages
  rw [uncompletedMessage_removeMessage]
  omega

/-- A message of the list is removed by its kind and name. -/
theorem length_removeMessage (hm : m ∈ c.messageList) :
    (c.removeMessage m.kind m.name).messageList.length + 1 = c.messageList.length := by
  rw [messageList_removeMessage]
  refine Keyed.length_remove fun hnone => ?_
  exact Keyed.lookup_eq_none.1 hnone m hm rfl

theorem length_addMessage_le :
    (c.addMessage m).messageList.length ≤ c.messageList.length + 1 := by
  have hlen : (Keyed.remove SentMessage.key m.key c.messageList).length ≤ c.messageList.length :=
    List.eraseP_sublist.length_le
  rw [messageList_addMessage]
  split
  · omega
  · rw [List.length_append, List.length_singleton]
    omega

theorem messages_complete_le : c.complete.messages ≤ c.messages := by
  unfold complete
  cases hu : c.uncompletedMessage with
  | none => exact Nat.le_refl _
  | some m =>
    have hlen := length_addMessage_le (c := c) (m := m)
    simp only [messages, setUncompleted, hu, Option.isSome_none, Option.isSome_some, Bool.toNat_false,
      Bool.toNat_true]
    omega

theorem messages_dropUncompleted_le : c.dropUncompleted.messages ≤ c.messages := by
  unfold dropUncompleted
  cases hu : c.uncompletedMessage with
  | none => exact Nat.le_refl _
  | some m =>
    have hadd := length_addMessage_le (c := c) (m := m)
    have hremove := length_removeMessage_le (c := c.addMessage m) m.kind m.name
    simp only [messages, setUncompleted, hu, Option.isSome_none, Option.isSome_some, Bool.toNat_false,
      Bool.toNat_true]
    omega

theorem Completed.messages_le (h : Completed c d) : d.messages ≤ c.messages := by
  cases h with
  | prepare => exact messages_complete_le
  | other _ removals =>
    exact removals.invariant (I := fun e => e.messages ≤ c.messages)
      (fun e kind name he => Nat.le_trans (messages_removeMessage_le kind name) he) (Nat.le_refl _)

theorem messages_endExtended : c.endExtended.messages = c.messages := by
  unfold endExtended
  split <;> rfl

/-- No reply makes more messages. -/
theorem Replied.messages_le {reply : Reply} (h : Replied c reply d) : d.messages ≤ c.messages := by
  cases h with
  | ignored | copyIn | other | v2 => exact Nat.le_refl _
  | skipped => exact Nat.le_refl _
  | ready =>
    unfold readyForQuery
    split
    · exact Nat.le_refl _
    · split
      · exact Nat.le_refl _
      · split <;> exact Nat.le_refl _
  | parseComplete | bindComplete => exact messages_complete_le (c := c)
  | @closeComplete m closing =>
    have hlen := length_removeMessage_le (c := c) m.kind m.name
    change (c.removeMessage m.kind m.name).messageList.length + _ ≤ _
    simp only [messages, setUncompleted, setInProgress, setSuccess, endMessage, closing,
      Option.isSome_none, Option.isSome_some, Bool.toNat_false, Bool.toNat_true]
    omega
  | error =>
    refine Nat.le_trans (Nat.le_of_eq ?_) (messages_dropUncompleted_le (c := c))
    unfold endError
    split <;> rfl
  | @command _ _ _ e completed =>
    rw [messages_endExtended]
    exact completed.messages_le
  | ends => exact Nat.le_of_eq messages_endExtended

/-- Nor does a query, unless it is a PREPARE. -/
theorem Queried.messages_le {env : Setup} {sql : String} (h : Queried env c sql d) :
    d.messageList = c.messageList ∧ d.messages ≤ c.messages + 1 ∧
      ((∀ name query, env.statement sql ≠ .prepareStmt name query) → d.messages = c.messages) := by
  cases h with
  | answered => exact ⟨rfl, Nat.le_succ _, fun _ => rfl⟩
  | sent =>
    unfold simpleQuery
    split
    · next name query hnode =>
      refine ⟨rfl, ?_, fun hnot => absurd hnode (hnot name query)⟩
      simp only [messages, attempt, startQuery, Option.isSome_some, Bool.toNat_true]
      omega
    · exact ⟨rfl, Nat.le_succ _, fun _ => rfl⟩

end Control

end PgPool
