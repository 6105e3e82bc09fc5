import PgPool.Lib.Transition
import PgPool.Proto.Backend
import PgPool.Proto.Frontend

/-!
# A child process

`do_child` and `pool_process_query`: a child serves one client after the other.  When a client has
gone, the child resets the connections to the backends with the queries of `reset_query_list`, and
keeps them for the next client.

The child of this model never gets its shared memory changed under it, and it ends, without a
further step, wherever the source exits.
-/

namespace PgPool

/-- Waiting for a client, serving one, or resetting the connections: `qcnt` queries have been
issued, and `waiting` is the `state` that waits for ReadyForQuery. -/
inductive Phase where
  | idle
  | serving
  | resetting (qcnt : Nat) (waiting : Bool)
  deriving DecidableEq, Repr

/-- `pool` has the connections that no client uses. -/
structure Child where
  session : Session
  phase : Phase
  pool : List Conn

/-- What can happen to a child.
* `connect`: a client connects; its connections come from the pool or are opened.
* `frontend`: a message from the client is processed.
* `backend`: a reply is processed.
* `disconnect`: the client terminates or is lost.  `cached` tells whether its connections may be
  kept, which depends on the configuration and the database.
* `reset`: `reset_backend` is called.
* `abandon`: a reply to a reset query cannot be processed. -/
inductive Event where
  | connect (loadBalanceNodeId : NodeId) (source : Option Nat) (major : Proto)
  | frontend (msg : FrontendMsg) (ans : Answers)
  | backend (reply : Reply) (ans : Answers)
  | disconnect (terminate cached : Bool)
  | reset (ans : Answers)
  | abandon

namespace Session

/-- `pool_init_session_context`, on the zeroed session context. -/
def initContext (env : Setup) (loadBalanceNodeId : NodeId) : SessionContext :=
  { SessionContext.zeroed with
    loadBalanceNodeId := if env.loadBalanceMode then loadBalanceNodeId else 0 }

/-- What `reset_backend` returns: no query was issued, one was, or none remains. -/
inductive ResetResult where
  | skipped | issued | done
  deriving DecidableEq, Repr

section

variable (env : Setup) (ans : Answers)

/-- The text by which `send_deallocate` deallocates a prepared statement. -/
def deallocateQuery (name : String) : String := "DEALLOCATE \"" ++ name ++ "\""

/-- `reset_backend` after the last reset query: the sent messages go one by one. -/
def resetMessage (s : Session) : Option (Session × ResetResult) :=
  match s.messageList with
  | [] => some (s, .done)
  | m :: _ =>
      if m.kind ≠ .B ∧ m.name ≠ "" then
        match simpleQuery env ans (deallocateQuery m.name) s with
        | none => none
        | some s => some ((s.removeSentMessage m.kind m.name).1, .issued)
      else some ((s.removeSentMessage m.kind m.name).1, .skipped)

/-- Some node that is valid is in a transaction. -/
def needToAbort (s : Session) : Bool := (s.validNodes env).any fun i => s.tstate i != .I

/-- `reset_backend`. -/
def resetBackend (qcnt : Nat) (s : Session) : Option (Session × ResetResult) :=
  let s := { s with resetContext := true, inProgress := false }
  match env.resetQueryList[qcnt]? with
  | none => resetMessage env ans s
  | some query =>
      if query = "ABORT" ∧ s.needToAbort env = false then some (s, .skipped)
      else
        match simpleQuery env ans query s with
        | none => none
        | some s => some (s, .issued)

end

end Session

namespace Child

variable (env : Setup)

/-- A child that has just started. -/
def init : Child where
  session :=
    { SessionContext.zeroed with
      contexts := fun _ => QueryContext.zeroed
      nextContext := 0
      destroyed := fun _ => 0
      nextMessage := 0
      conn := Conn.opened .v3
      allowCloseTransaction := true }
  phase := .idle
  pool := []

/-- A new client gets connections. -/
def connect (loadBalanceNodeId : NodeId) (conn : Conn) (pool : List Conn) (c : Child) : Child where
  session :=
    { c.session with
      toSessionContext := Session.initContext env loadBalanceNodeId
      conn := conn }
  phase := .serving
  pool := pool

/-- The session ends and its connections are closed. -/
def discard (c : Child) : Child :=
  { c with session := c.session.sessionContextDestroy, phase := .idle }

/-- The session ends and its connections, which are idle now, go to the pool. -/
def keep (s : Session) (c : Child) : Child :=
  let s := s.setTstate (s.validNodes env) fun _ => .I
  { session := s.sessionContextDestroy, phase := .idle, pool := s.conn :: c.pool }

/-- A call of `reset_backend`.  When it fails the connections are closed; what it has done to the
query contexts so far goes with the session. -/
def reset (ans : Answers) (qcnt : Nat) (c : Child) : Child :=
  match Session.resetBackend env ans qcnt c.session with
  | none => c.discard
  | some (s, .skipped) => { c with session := s, phase := .resetting (qcnt + 1) false }
  | some (s, .issued) => { c with session := s, phase := .resetting (qcnt + 1) true }
  | some (s, .done) => c.keep env s

/-- The phase after a reply: ReadyForQuery ends a reset query. -/
def phaseAfter (reply : Reply) (s : Session) : Phase → Phase
  | .resetting qcnt waiting =>
      match reply with
      | .readyForQuery =>
          .resetting qcnt (waiting && (s.ignoreTillSync || s.skipReadingFromBackends))
      | _ => .resetting qcnt waiting
  | phase => phase

/-- The client has gone.  A Terminate is a message like any other, and is ignored like them. -/
def disconnect (terminate cached : Bool) (c : Child) : Child :=
  if terminate && c.session.ignoreTillSync then c
  else
    let s := if terminate then c.session.unsetDoingExtendedQueryMessage else c.session
    if cached then { c with session := s, phase := .resetting 0 false }
    else { c with session := s }.discard

/-- The next state of a child, `none` where it exits or the event cannot happen.  Frontend messages
are read only while no query is in progress. -/
def step (c : Child) (e : Event) : Option Child :=
  match c.phase, e with
  | .idle, .connect loadBalanceNodeId source major =>
      match source with
      | none => some (c.connect env loadBalanceNodeId (Conn.opened major) c.pool)
      | some k =>
          match c.pool[k]? with
          | none => none
          | some conn => some (c.connect env loadBalanceNodeId conn (c.pool.eraseIdx k))
  | .serving, .frontend msg ans =>
      if c.session.inProgress then none
      else
        match Session.processFrontendResponse env ans msg c.session with
        | none => none
        | some s => some { c with session := s }
  | .serving, .backend reply ans | .resetting _ true, .backend reply ans =>
      match Session.processBackendResponse env ans reply c.session with
      | none => none
      | some s => some { c with session := s, phase := phaseAfter reply c.session c.phase }
  | .serving, .disconnect terminate cached =>
      if terminate && c.session.inProgress then none else some (c.disconnect terminate cached)
  | .resetting qcnt false, .reset ans => some (c.reset env ans qcnt)
  | .resetting _ true, .abandon => some c.discard
  | _, _ => none

/-- The states a child reaches from its start by steps that meet a condition. -/
def Reachable (P : Child → Event → Prop) (c : Child) : Prop :=
  Transition.Run (step env) P init c

/-! ### Concrete runs -/

/-- The state after some events, if they can all be taken. -/
def after (es : List Event) : Child := (Transition.runAll (step env) es init).getD init

variable {env} {es : List Event}

theorem runAll_after (h : (Transition.runAll (step env) es init).isSome = true) :
    Transition.runAll (step env) es init = some (after env es) := by
  obtain ⟨c, hc⟩ := Option.isSome_iff_exists.1 h
  rw [after, hc]
  rfl

theorem reachable_after {P : Child → Event → Prop}
    (h : (Transition.runAll (step env) es init).isSome = true)
    (hP : Transition.Holds (step env) P es init) : Reachable env P (after env es) :=
  .of_runAll (runAll_after h) hP

theorem step_after (es : List Event) (e : Event)
    (h : (Transition.runAll (step env) (es ++ [e]) init).isSome = true)
    (hes : (Transition.runAll (step env) es init).isSome = true) :
    step env (after env es) e = some (after env (es ++ [e])) := by
  have hrun := runAll_after h
  rw [Transition.runAll_append (runAll_after hes), Transition.runAll] at hrun
  split at hrun
  · cases hrun
  · rename_i hs
    rw [hs]
    exact hrun

end Child

/-- All goes well, outside of a transaction. -/
def Answers.quiet : Answers := .smooth fun _ => .I

end PgPool
