import Mathlib.Data.List.Basic
import PgPool.Lib.Transition
import PgPool.Session.Context

/-!
# Children and nodes together

Several children of pgpool in replication mode, each with a connection to every node, and the nodes
with their transactions.  A child works through a list of operations, one after the other; messages
wait in the connections until a node gets to them.  A node executes a write only when no other child
has a conflicting one in an open transaction there; statements that only lock are executed any time.
-/

namespace PgPool.Serial

abbrev ChildId := Nat

/-- A statement that writes; each one has a number of its own. -/
abbrev WriteId := Nat

/-- Statements, as far as transactions are concerned.  A `write` is an INSERT, UPDATE or DELETE, and `lock`
anything else that needs an internal transaction, such as LOCK or SELECT FOR UPDATE. -/
inductive Statement where
  | begin | commit | rollback
  | write (w : WriteId)
  | lock
  | other
  deriving DecidableEq, Repr

/-- A message to a node.  `begin` and `commit` are the commands of `start_internal_transaction` and
`end_internal_transaction`, `lock` is a command of `insert_lock`, and `prepare` a Parse, Bind, Describe or
Close. -/
inductive Msg where
  | query (statement : Statement)
  | begin | commit
  | lock
  | prepare
  | execute (statement : Statement)
  | sync
  deriving DecidableEq, Repr

/-- The write that a message carries. -/
def Msg.write? : Msg → Option WriteId
  | .query (.write w) | .execute (.write w) => some w
  | _ => none

/-- Other messages that commit what is open, at least outside of a transaction block. -/
def Msg.commits : Msg → Bool
  | .query .commit | .query .lock | .query .other | .execute .commit | .commit | .sync => true
  | _ => false

/-- What belongs into a transaction block. -/
def Msg.needsBlock : Msg → Bool
  | .query (.write _) | .lock => true
  | _ => false

/-- What a child does next.
* `send`: a message goes to a node.
* `poll`: `wait_for_query_response`, which returns as soon as the node says anything.
* `settle`: the replies of a node are read up to the end.
* `startInternal`, `endInternal`: the body of the loops of `start_internal_transaction` and
  `end_internal_transaction` for a node.
* `mark`, `assume`: `INTERNAL_TRANSACTION_STARTED` or `TSTATE` is set.
* `status`: `TSTATE` is read from ReadyForQuery.
* `allowClose`: `allow_close_transaction` is set. -/
inductive Op where
  | send (i : NodeId) (m : Msg)
  | poll (i : NodeId)
  | settle (i : NodeId)
  | startInternal (i : NodeId)
  | endInternal (i : NodeId)
  | mark (i : NodeId) (started : Bool)
  | assume (i : NodeId) (state : TState)
  | status (i : NodeId)
  | allowClose (allow : Bool)
  deriving DecidableEq, Repr

/-- A child with its connections.  `writing` is the last write that it was asked for. -/
structure ChildState where
  tstate : NodeId → TState
  internalTransactionStarted : NodeId → Bool
  allowCloseTransaction : Bool
  pending : List Op
  writing : Option WriteId

/-- A node's side of a connection.  `internal` tells who has opened the transaction block. -/
structure Server where
  inBlock : Bool
  failed : Bool
  internal : Bool
  deriving DecidableEq, Repr

def Server.idle : Server := ⟨false, false, false⟩

/-- What has become of a write on a node. -/
inductive Fate where
  | unknown | pending | committed | aborted | rejected
  deriving DecidableEq, Repr

/-- Everything.  `order` has the writes that a node has executed, the first one first. -/
structure System where
  next : WriteId
  owner : WriteId → ChildId
  fate : NodeId → WriteId → Fate
  order : NodeId → List WriteId
  queue : ChildId → NodeId → List Msg
  server : ChildId → NodeId → Server
  child : ChildId → ChildState

/-- The configuration, and which writes conflict. -/
structure Cluster where
  master : NodeId
  others : List NodeId
  nodup : (master :: others).Nodup
  numInitChildren : Nat
  conflicts : WriteId → WriteId → Bool
  symm : ∀ a b, conflicts a b = conflicts b a

def Cluster.nodes (env : Cluster) : List NodeId := env.master :: env.others

/-- What a client asks for.  `parse` tells whether an internal transaction is needed and whether
`insert_lock` has something to do; `prepared` is a Bind, Describe or Close, and `read` a SELECT for one
node. -/
inductive Request where
  | query (statement : Statement) (lock : Bool)
  | read (i : NodeId)
  | parse (internal lock : Bool)
  | prepared
  | execute (statement : Statement)
  | sync
  /-- The client has gone, and `reset_backend` issues ABORT and DISCARD ALL. -/
  | reset

section

variable (env : Cluster)

/-- `pool_send_and_wait`, to the master, to the others, or to all of them. -/
def sendAndWait (nodes : List NodeId) (m : Msg) : List Op :=
  nodes.map (Op.send · m) ++ nodes.map Op.poll

/-- The calls for a statement: COMMIT and ROLLBACK reach the master last. -/
def sendStatement (statement : Statement) (m : Msg) : List Op :=
  match statement with
  | .commit | .rollback => sendAndWait env.others m ++ sendAndWait [env.master] m
  | _ => sendAndWait [env.master] m ++ sendAndWait env.others m

/-- All nodes at once if there is only one child. -/
def sendQuery (statement : Statement) : List Op :=
  match statement with
  | .commit | .rollback => sendStatement env statement (.query statement)
  | _ =>
      if env.numInitChildren = 1 then sendAndWait env.nodes (.query statement)
      else sendStatement env statement (.query statement)

/-- `insert_lock`: the commands are sent by `do_command` or `do_query`, on the master first. -/
def insertLock (lock : Bool) : List Op :=
  if lock then env.nodes.flatMap fun i => [.send i .lock, .settle i, .status i] else []

/-- `ReadyForQuery`. -/
def readyForQuery (allow : Bool) : List Op :=
  env.nodes.map Op.settle ++
    ((if allow then (env.others ++ [env.master]).map Op.endInternal else []) ++
      env.nodes.map Op.status)

/-- `is_internal_transaction_needed`. -/
def Statement.isInternalTransactionNeeded : Statement → Bool
  | .write _ | .lock => true
  | _ => false

/-- `start_internal_transaction`. -/
def startInternal (needed : Bool) : List Op :=
  if needed then env.nodes.map Op.startInternal else []

/-- `SimpleQuery` and the reply. -/
def simpleQuery (allow : Bool) (statement : Statement) (lock : Bool) : List Op :=
  startInternal env statement.isInternalTransactionNeeded ++ insertLock env lock ++ sendQuery env statement ++
    readyForQuery env allow

/-- `Parse` sends a Sync of its own unless the master is in a transaction. -/
def parseSync (c : ChildState) : List Op :=
  if c.tstate env.master = .T then []
  else env.nodes.map (Op.send · .sync) ++ readyForQuery env false

/-- `TSTATE` after a BEGIN in the extended protocol. -/
def assumeBegun (statement : Statement) : List Op :=
  if statement = .begin then env.nodes.map (Op.assume · .T) else []

/-- ABORT goes to the nodes that are in a transaction, to the master last. -/
def abortQuery (c : ChildState) : List Op :=
  let others := env.others.filter fun i => c.tstate i ≠ .I
  let master := [env.master].filter fun i => c.tstate i ≠ .I
  if others ++ master = [] then []
  else
    sendAndWait others (.query .rollback) ++ sendAndWait master (.query .rollback) ++
      readyForQuery env c.allowCloseTransaction

/-- A Parse, Bind, Describe or Close goes to the master first. -/
def sendPrepare : List Op :=
  sendAndWait [env.master] .prepare ++ sendAndWait env.others .prepare ++ env.nodes.map Op.settle

/-- The operations for a request. -/
def operations (c : ChildState) : Request → List Op
  | .query statement lock => .allowClose true :: simpleQuery env true statement lock
  | .read i =>
      .allowClose true :: (sendAndWait [i] (.query .other) ++ [.settle i] ++
        [.endInternal i, .status i])
  | .parse internal lock =>
      .allowClose false :: (parseSync env c ++ startInternal env internal ++ insertLock env lock ++
        sendPrepare env)
  | .prepared => sendPrepare env
  | .execute statement =>
      .allowClose true :: (sendStatement env statement (.execute statement) ++
        env.nodes.map Op.settle ++ assumeBegun env statement)
  | .sync => env.nodes.map (Op.send · .sync) ++ readyForQuery env c.allowCloseTransaction
  | .reset =>
      abortQuery env c ++ simpleQuery env c.allowCloseTransaction .other false ++
        env.nodes.map (Op.assume · .I)

/-- The write that a request is about. -/
def Request.write? : Request → Option WriteId
  | .query (.write w) _ | .execute (.write w) => some w
  | _ => none

end

/-! ## The nodes -/

/-- What becomes of a message. -/
inductive Outcome where
  | ok | error | ignored
  deriving DecidableEq, Repr

def Server.status (s : Server) : TState := if s.inBlock then if s.failed then .E else .T else .I

namespace System

variable (env : Cluster) (s : System) (c : ChildId) (i : NodeId)

def setFate (f : WriteId → Fate) : System := { s with fate := Function.update s.fate i f }

def setServer (server : Server) : System :=
  { s with server := Function.update s.server c (Function.update (s.server c) i server) }

def setQueue (queue : List Msg) : System :=
  { s with queue := Function.update s.queue c (Function.update (s.queue c) i queue) }

def setChild (child : ChildState) : System := { s with child := Function.update s.child c child }

section

variable {s} {c} {i} {d : ChildId} {j : NodeId}

@[simp, grind =]
theorem setFate_fate (f : WriteId → Fate) :
    (s.setFate i f).fate j = if j = i then f else s.fate j := by
  simp [setFate, Function.update_apply]

@[simp, grind =]
theorem setServer_server (server : Server) :
    (s.setServer c i server).server d j = if d = c ∧ j = i then server else s.server d j := by
  by_cases h : d = c <;> simp [setServer, Function.update_apply, h]

@[simp, grind =]
theorem setQueue_queue (queue : List Msg) :
    (s.setQueue c i queue).queue d j = if d = c ∧ j = i then queue else s.queue d j := by
  by_cases h : d = c <;> simp [setQueue, Function.update_apply, h]

@[simp, grind =]
theorem setChild_child (child : ChildState) :
    (s.setChild c child).child d = if d = c then child else s.child d := by
  simp [setChild, Function.update_apply]

end

/-- The transaction of a connection ends. -/
def finish (fate : Fate) : System :=
  s.setFate i fun w => if s.owner w = c ∧ s.fate i w = .pending then fate else s.fate i w

/-- No other child has a conflicting write in an open transaction on the node. -/
def lockFree (w : WriteId) : Bool :=
  (s.order i).all fun a => s.owner a = c || !env.conflicts a w || s.fate i a ≠ .pending

/-- A write is executed. -/
def execute (w : WriteId) : System :=
  { s.setFate i (Function.update (s.fate i) w .pending) with
    order := Function.update s.order i (s.order i ++ [w]) }

/-- A write is not executed, and never will be. -/
def reject (w : WriteId) : System := s.setFate i (Function.update (s.fate i) w .rejected)

/-- An error: outside of a transaction block it aborts at once, and in the extended protocol messages are
skipped up to Sync. -/
def fail (m : Msg) : System :=
  let server := s.server c i
  if server.inBlock ∧ m ≠ .query .commit ∧ m ≠ .execute .commit ∧ m ≠ .commit then
    s.setServer c i { server with failed := true }
  else
    (s.finish c i .aborted).setServer c i
      { inBlock := false
        failed := match m with
          | .prepare | .execute _ => true
          | _ => false
        internal := false }

/-- COMMIT in a failed transaction rolls it back. -/
def endedFate (server : Server) : Fate := if server.failed then .aborted else .committed

/-- What a statement other than a write does, when it succeeds. -/
def succeed (m : Msg) : Option System :=
  let server := s.server c i
  match m with
  | .query .commit | .execute .commit | .commit =>
      some ((s.finish c i (endedFate server)).setServer c i .idle)
  | .query .rollback | .execute .rollback =>
      some ((s.finish c i .aborted).setServer c i .idle)
  | .sync =>
      if server.inBlock then some s
      else some ((s.finish c i (endedFate server)).setServer c i .idle)
  | m =>
      if server.failed then none
      else
        match m with
        | .query .begin | .execute .begin =>
            some (s.setServer c i
              { server with inBlock := true, internal := server.inBlock && server.internal })
        | .begin =>
            some (s.setServer c i
              { server with inBlock := true, internal := !server.inBlock || server.internal })
        | .query .lock | .query .other | .lock =>
            if server.inBlock then some s else some (s.finish c i .committed)
        | _ => some s

/-- What a write does.  In the simple protocol it is committed at once outside of a transaction
block. -/
def writes (m : Msg) (w : WriteId) : Option System :=
  let server := s.server c i
  if server.failed || !s.lockFree env c i w then none
  else
    let t := s.execute i w
    if m.needsBlock && !server.inBlock then some (t.finish c i .committed) else some t

/-- A node gets to the next message of a connection. -/
def process (o : Outcome) : Option System :=
  match s.queue c i with
  | [] => none
  | m :: rest =>
      let s := s.setQueue c i rest
      match m.write?, o with
      | some w, .ok => s.writes env c i m w
      | some w, .error => some ((s.reject i w).fail c i m)
      | some w, .ignored => some (s.reject i w)
      | none, .ok => s.succeed c i m
      | none, .error => some (s.fail c i m)
      | none, .ignored => some s

/-- A node aborts a transaction, as a victim of a deadlock for example. -/
def abort : System :=
  let server := s.server c i
  let t := s.finish c i .aborted
  if server.inBlock then t.setServer c i { server with failed := true } else t

section

variable {s} {c} {i} {t : System} {m : Msg}

@[simp]
theorem setServer_self : s.setServer c i (s.server c i) = s := by
  simp [setServer]

/-- Messages of a client or of `reset_backend` that end a transaction block. -/
def endsBlock : Msg → Bool
  | .query .commit | .query .rollback | .execute .commit | .execute .rollback => true
  | _ => false

/-- What a message can do to a transaction block that `start_internal_transaction` has opened. -/
def KeepsBlock (m : Msg) (server server' : Server) : Prop :=
  (endsBlock m = false → m ≠ .commit → server.inBlock → server.internal →
    server'.inBlock ∧ server'.internal) ∧
  (m = .begin → server.inBlock = false → server'.inBlock ∧ server'.internal)

/-- An error leaves the block, or aborts. -/
theorem fail_cases (s : System) (c : ChildId) (i : NodeId) (m : Msg) :
    ∃ server, (s.fail c i m = s.setServer c i server ∨
        s.fail c i m = (s.finish c i .aborted).setServer c i server) ∧
      (m ≠ .begin → KeepsBlock m (s.server c i) server) := by
  unfold fail
  extract_lets server
  split
  · refine ⟨_, .inl rfl, fun hm => ⟨fun _ _ hin hint => ⟨hin, hint⟩, fun h => (hm h).elim⟩⟩
  · next hout =>
    refine ⟨_, .inr rfl, fun hm => ⟨fun hends hcommit hin _ => (hout ⟨hin, ?_, ?_, hcommit⟩).elim,
      fun h => (hm h).elim⟩⟩
    · rintro rfl
      simp [endsBlock] at hends
    · rintro rfl
      simp [endsBlock] at hends

theorem endedFate_cases (server : Server) :
    endedFate server = .committed ∨ endedFate server = .aborted := by
  unfold endedFate
  split
  · exact .inr rfl
  · exact .inl rfl

/-- What a message other than a write does when it succeeds: it may commit what it is meant to, or
`insert_lock`'s own command if there is no block. -/
theorem succeed_cases (ht : s.succeed c i m = some t) :
    ∃ server, (t = s.setServer c i server ∨
        ∃ f, (f = .aborted ∨
            f = .committed ∧ (m.commits ∨ m.needsBlock ∧ (s.server c i).inBlock = false)) ∧
          t = (s.finish c i f).setServer c i server) ∧
      KeepsBlock m (s.server c i) server := by
  have ended : ∀ {m : Msg}, m.commits → ∀ server : Server, endedFate server = .aborted ∨
      endedFate server = .committed ∧
        (m.commits ∨ m.needsBlock ∧ (s.server c i).inBlock = false) := by
    intro m hm server
    exact (endedFate_cases server).symm.imp id fun h => ⟨h, .inl hm⟩
  have kept : ∀ {m : Msg}, m ≠ .begin → KeepsBlock m (s.server c i) (s.server c i) :=
    fun hm => ⟨fun _ _ hin hint => ⟨hin, hint⟩, fun h => (hm h).elim⟩
  unfold succeed at ht
  extract_lets server at ht
  split at ht
  · cases ht
    exact ⟨_, .inr ⟨_, ended rfl _, rfl⟩, by simp [KeepsBlock, endsBlock]⟩
  · cases ht
    exact ⟨_, .inr ⟨_, ended rfl _, rfl⟩, by simp [KeepsBlock, endsBlock]⟩
  · cases ht
    exact ⟨_, .inr ⟨_, ended rfl _, rfl⟩, by simp [KeepsBlock]⟩
  · cases ht
    exact ⟨_, .inr ⟨_, .inl rfl, rfl⟩, by simp [KeepsBlock, endsBlock]⟩
  · cases ht
    exact ⟨_, .inr ⟨_, .inl rfl, rfl⟩, by simp [KeepsBlock, endsBlock]⟩
  · split at ht
    · cases ht
      exact ⟨_, .inl setServer_self.symm, kept (by simp)⟩
    · next hout =>
      cases ht
      exact ⟨_, .inr ⟨_, ended rfl _, rfl⟩, fun _ _ hin => (hout hin).elim, by simp⟩
  · split at ht
    · simp at ht
    have noBlock : ∀ {m : Msg} (_ : m ≠ .begin) (_ : m.commits ∨ m.needsBlock)
        (_ : (if server.inBlock then some s else some (s.finish c i .committed)) = some t),
        ∃ server, (t = s.setServer c i server ∨
          ∃ f, (f = .aborted ∨
              f = .committed ∧ (m.commits ∨ m.needsBlock ∧ (s.server c i).inBlock = false)) ∧
            t = (s.finish c i f).setServer c i server) ∧ KeepsBlock m (s.server c i) server := by
      intro m hm hcommits ht
      split at ht
      · cases ht
        exact ⟨_, .inl setServer_self.symm, kept hm⟩
      · next hout =>
        cases ht
        have hout : (s.server c i).inBlock = false := by simpa using hout
        refine ⟨s.server c i, .inr ⟨.committed, .inr ⟨rfl, hcommits.imp id fun h => ⟨h, hout⟩⟩, ?_⟩,
          kept hm⟩
        exact (setServer_self (s := s.finish c i .committed)).symm
    split at ht
    · cases ht
      refine ⟨_, .inl rfl, fun _ _ hin hint => ⟨rfl, ?_⟩, by simp⟩
      simp [server, hin, hint]
    · cases ht
      refine ⟨_, .inl rfl, fun _ _ hin hint => ⟨rfl, ?_⟩, by simp⟩
      simp [server, hin, hint]
    · cases ht
      refine ⟨_, .inl rfl, fun _ _ _ hint => ⟨rfl, ?_⟩, fun _ hout => ⟨rfl, ?_⟩⟩
      · simp [server, hint]
      · simp [server, hout]
    · exact noBlock (by simp) (.inl rfl) ht
    · exact noBlock (by simp) (.inl rfl) ht
    · exact noBlock (by simp) (.inr rfl) ht
    · next hbegin _ _ _ =>
      cases ht
      exact ⟨_, .inl setServer_self.symm, kept hbegin⟩

end

/-! ## The children -/

def freshChild : ChildState where
  tstate := fun _ => .I
  internalTransactionStarted := fun _ => false
  allowCloseTransaction := true
  pending := []
  writing := none

/-- The next operation of a child. -/
def run : Option System :=
  let child := s.child c
  match child.pending with
  | [] => none
  | op :: rest =>
      let go (child : ChildState) := s.setChild c child
      match op with
      | .send i m =>
          some ((go { child with pending := rest }).setQueue c i (s.queue c i ++ [m]))
      | .poll _ => some (go { child with pending := rest })
      | .settle i => if s.queue c i = [] then some (go { child with pending := rest }) else none
      | .startInternal i =>
          if child.tstate i = .I ∧ child.internalTransactionStarted i = false then
            some (go { child with
              pending := .send i .begin :: .settle i :: .status i :: .mark i true :: rest })
          else some (go { child with pending := rest })
      | .endInternal i =>
          if child.tstate i ≠ .I ∧ child.internalTransactionStarted i = true then
            some (go { child with
              pending := .send i .commit :: .settle i :: .mark i false :: rest })
          else some (go { child with pending := rest })
      | .mark i started =>
          some (go { child with
            pending := rest
            internalTransactionStarted := Function.update child.internalTransactionStarted i started })
      | .assume i state =>
          some (go { child with pending := rest, tstate := Function.update child.tstate i state })
      | .status i =>
          some (go { child with
            pending := rest
            tstate := Function.update child.tstate i (s.server c i).status })
      | .allowClose allow => some (go { child with pending := rest, allowCloseTransaction := allow })

/-- A client asks for something.  A write gets the next number. -/
def request (r : Request) : Option System :=
  let child := s.child c
  if child.pending ≠ [] ∨ env.numInitChildren ≤ c then none
  else
    match r.write? with
    | none => some (s.setChild c { child with pending := operations env child r })
    | some w =>
        if w = s.next then
          some ({ s with next := s.next + 1, owner := Function.update s.owner w c }.setChild c
            { child with pending := operations env child r, writing := some w })
        else none

/-- The connections of a child are closed. -/
def close : System :=
  { s with
    fate := fun i w =>
      if s.owner w = c ∧ w < s.next then
        match s.fate i w with
        | .unknown => .rejected
        | .pending => .aborted
        | f => f
      else s.fate i w
    queue := Function.update s.queue c fun _ => []
    server := Function.update s.server c fun _ => .idle
    child := Function.update s.child c freshChild }

section

variable {env} {s} {c} {i} {t : System} {m : Msg}

theorem KeepsBlock.refl (server : Server) (hm : m ≠ .begin) : KeepsBlock m server server :=
  ⟨fun _ _ hin hint => ⟨hin, hint⟩, fun h => (hm h).elim⟩

/-- A node that gets to a message touches that connection only. -/
theorem process_cases {o : Outcome} (ht : s.process env c i o = some t) :
    ∃ m rest, s.queue c i = m :: rest ∧ t.child = s.child ∧
      t.queue = (s.setQueue c i rest).queue ∧
      (∀ d j, ¬(d = c ∧ j = i) → t.server d j = s.server d j) ∧
      ((m = .begin → o = .ok) → KeepsBlock m (s.server c i) (t.server c i)) := by
  unfold process at ht
  split at ht
  · simp at ht
  next m rest hq =>
  extract_lets u at ht
  have write : ∀ {w}, m.write? = some w → m ≠ .begin := by
    rintro w hw rfl
    simp [Msg.write?] at hw
  have fails : ∀ v : System, v.server = s.server → m ≠ .begin →
      (∀ d j, ¬(d = c ∧ j = i) → (v.fail c i m).server d j = s.server d j) ∧
        KeepsBlock m (s.server c i) ((v.fail c i m).server c i) := by
    intro v hv hm
    rw [← hv]
    obtain ⟨server, heq | heq, hkeeps⟩ := fail_cases v c i m
    · rw [heq]
      refine ⟨fun d j hdj => by simp [hdj], by simpa using hkeeps hm⟩
    · rw [heq]
      refine ⟨fun d j hdj => ?_, by simpa using hkeeps hm⟩
      rw [setServer_server, if_neg hdj]
      rfl
  have failed : ∀ v : System, (v.fail c i m).child = v.child ∧ (v.fail c i m).queue = v.queue := by
    intro v
    obtain ⟨server, heq | heq, -⟩ := fail_cases v c i m
    · rw [heq]
      exact ⟨rfl, rfl⟩
    · rw [heq]
      exact ⟨rfl, rfl⟩
  refine ⟨m, rest, hq, ?_⟩
  split at ht
  · next w hw =>
    unfold writes at ht
    extract_lets server v at ht
    split at ht
    · simp at ht
    · split at ht
      · rw [← Option.some.inj ht]
        exact ⟨rfl, rfl, fun _ _ _ => rfl, fun _ => .refl _ (write hw)⟩
      · rw [← Option.some.inj ht]
        exact ⟨rfl, rfl, fun _ _ _ => rfl, fun _ => .refl _ (write hw)⟩
  · next w hw =>
    rw [← Option.some.inj ht]
    obtain ⟨hserver, hkeeps⟩ := fails (u.reject i w) rfl (write hw)
    exact ⟨(failed _).1, (failed _).2, hserver, fun _ => hkeeps⟩
  · next w hw =>
    rw [← Option.some.inj ht]
    exact ⟨rfl, rfl, fun _ _ _ => rfl, fun _ => .refl _ (write hw)⟩
  · obtain ⟨server, rfl | ⟨f, -, rfl⟩, hkeeps⟩ := succeed_cases ht
    · refine ⟨rfl, rfl, fun d j hdj => ?_, fun _ => ?_⟩
      · rw [setServer_server, if_neg hdj]
        rfl
      · rw [setServer_server, if_pos ⟨rfl, rfl⟩]
        exact hkeeps
    · refine ⟨rfl, rfl, fun d j hdj => ?_, fun _ => ?_⟩
      · rw [setServer_server, if_neg hdj]
        rfl
      · rw [setServer_server, if_pos ⟨rfl, rfl⟩]
        exact hkeeps
  · rw [← Option.some.inj ht]
    by_cases hm : m = .begin
    · refine ⟨(failed _).1, (failed _).2, fun d j hdj => ?_, fun h => by simpa using h hm⟩
      obtain ⟨server, heq | heq, -⟩ := fail_cases u c i m
      · rw [heq, setServer_server, if_neg hdj]
        rfl
      · rw [heq, setServer_server, if_neg hdj]
        rfl
    · obtain ⟨hserver, hkeeps⟩ := fails u rfl hm
      exact ⟨(failed _).1, (failed _).2, hserver, fun _ => hkeeps⟩
  · rw [← Option.some.inj ht]
    exact ⟨rfl, rfl, fun _ _ _ => rfl, fun h => .refl _ fun hm => by simpa using h hm⟩

/-- A transaction that a node aborts leaves its block behind. -/
theorem abort_cases (s : System) (c : ChildId) (i : NodeId) :
    (s.abort c i).child = s.child ∧ (s.abort c i).queue = s.queue ∧
      ∀ d j, ((s.abort c i).server d j).inBlock = (s.server d j).inBlock ∧
        ((s.abort c i).server d j).internal = (s.server d j).internal := by
  unfold abort
  extract_lets server v
  split
  · refine ⟨rfl, rfl, fun d j => ?_⟩
    rw [setServer_server]
    split
    · next hdj => rw [hdj.1, hdj.2]
                  exact ⟨rfl, rfl⟩
    · exact ⟨rfl, rfl⟩
  · exact ⟨rfl, rfl, fun _ _ => ⟨rfl, rfl⟩⟩

/-- A child by itself only sends. -/
theorem run_connections (ht : s.run c = some t) :
    (t.fate = s.fate ∧ t.order = s.order) ∧ t.server = s.server ∧
      (t.queue = s.queue ∨ ∃ i m rest, (s.child c).pending = .send i m :: rest ∧
        t.queue = (s.setQueue c i (s.queue c i ++ [m])).queue) := by
  unfold run at ht
  extract_lets child go at ht
  split at ht
  · simp at ht
  next op rest hp =>
  split at ht
  · cases ht
    exact ⟨⟨rfl, rfl⟩, rfl, .inr ⟨_, _, rest, hp, rfl⟩⟩
  all_goals try split at ht
  all_goals cases ht
  all_goals exact ⟨⟨rfl, rfl⟩, rfl, .inl rfl⟩

theorem request_nodes {r : Request} (ht : s.request env c r = some t) :
    (t.fate = s.fate ∧ t.order = s.order) ∧ t.queue = s.queue ∧ t.server = s.server := by
  unfold request at ht
  extract_lets child at ht
  split at ht
  · simp at ht
  split at ht
  all_goals try split at ht
  all_goals cases ht
  all_goals exact ⟨⟨rfl, rfl⟩, rfl, rfl⟩

/-- A child does not touch another one's connections. -/
theorem run_frame (ht : s.run c = some t) {d : ChildId} (hd : d ≠ c) :
    t.child d = s.child d ∧ t.queue d = s.queue d ∧ t.server d = s.server d := by
  have frame : ∀ child, (s.setChild c child).child d = s.child d := fun child => by simp [hd]
  unfold run at ht
  extract_lets child go at ht
  split at ht
  · simp at ht
  split at ht
  · cases ht
    exact ⟨frame _, Function.update_of_ne hd .., rfl⟩
  all_goals try split at ht
  all_goals cases ht
  all_goals exact ⟨frame _, rfl, rfl⟩

theorem request_frame {r : Request} (ht : s.request env c r = some t) {d : ChildId} (hd : d ≠ c) :
    t.child d = s.child d := by
  unfold request at ht
  extract_lets child at ht
  split at ht
  · simp at ht
  split at ht
  all_goals try split at ht
  all_goals cases ht
  all_goals exact Function.update_of_ne hd ..

end

end System

/-- Steps of the whole system. -/
inductive Event where
  | request (c : ChildId) (r : Request)
  | run (c : ChildId)
  | process (c : ChildId) (i : NodeId) (o : Outcome)
  | abort (c : ChildId) (i : NodeId)
  | close (c : ChildId)

def System.step (env : Cluster) (s : System) : Event → Option System
  | .request c r => s.request env c r
  | .run c => s.run c
  | .process c i o => s.process env c i o
  | .abort c i => some (s.abort c i)
  | .close c => some (s.close c)

/-- Nothing has happened yet. -/
def System.init : System where
  next := 0
  owner := fun _ => 0
  fate := fun _ _ => .unknown
  order := fun _ => []
  queue := fun _ _ => []
  server := fun _ _ => .idle
  child := fun _ => System.freshChild

end PgPool.Serial
