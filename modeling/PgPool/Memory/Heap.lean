import PgPool.Memory.Work
import PgPool.Safety.Contexts

/-!
# The pools of a child

Who takes memory from which pool: `pool_session_context.c` and `pool_query_context.c` with the
places of `pool_proto_modules.c` and `pool_process_query.c` that work in a pool.  `pool_memory`
points to the pool of the process, except for the time of a piece of work, when it is switched to
the pool of the current query or of the session and back.

`Call` lists the functions that touch a pool or the references to messages and query contexts.  A
child makes them in some order; the runs below are those of every order.
-/

namespace PgPool

open Region Keyed

/-- The addresses of the pools: the one that `raw_parser` creates for the process, that of
`pool_hba.c`, and those of the sessions and query contexts. -/
inductive PoolId where
  | process
  | hba
  | session (k : Nat)
  | query (qc : QcId)
  deriving DecidableEq, Repr

/-- The chunks of a sent message: the `POOL_SENT_MESSAGE` and what its pointers refer to. -/
inductive Field where
  | message | contents | name
  deriving DecidableEq, Repr

/-- `pool_memory` during a piece of work: left alone, or switched to the pool of the current query,
which is that of the session while there is none. -/
inductive Site where
  | process | query
  deriving DecidableEq, Repr

/-- `sizeof(POOL_SENT_MESSAGE)`. -/
def sizeofSentMessage : Nat := 40

/-- The memory of a child.  `destroyed` tells which messages `pool_sent_message_destroy` has been
called for, `hbaLines` are the lists that `load_hba` has built. -/
structure Heap where
  control : Control
  memory : Memory PoolId
  chunks : MsgId → Field → Chunk
  destroyed : MsgId → Bool
  serving : Bool
  session : Nat
  hbaLines : List Chunk

/-- The functions that touch a pool or the references to messages and query contexts.
* `beginSession`, `endSession`: `pool_init_session_context` and `pool_session_context_destroy`, the
  latter after the sent messages have been removed.
* `flags`: the flags of the session are set.
* `startQuery`: `pool_init_query_context` and `pool_start_query`.
* `work`: a piece of work in a pool; `freeParser`: `free_parser`.
* `createMessage`: `pool_create_sent_message`, whose result is the uncompleted message.
* `replaceContents`: `Parse` replaces the contents of its message by a rewritten text.
* `setCurrent`, `close`: the context of an entry becomes the current one, an entry the uncompleted
  message.
* `forget`: there is no uncompleted message any more.
* `addMessage`: `pool_add_sent_message` for the uncompleted message.
* `removeMessage`: `pool_remove_sent_message`.
* `destroyQuery`: `pool_query_context_destroy` for the current context.
* `loadHba`: `load_hba`, which may find its file or not. -/
inductive Call where
  | beginSession
  | endSession
  | flags (inProgress extended success skip ignore : Bool)
  | startQuery (sql : String) (node : Node)
  | work (site : Site) (ops : List WorkOp)
  | freeParser
  | createMessage (m : SentMessage) (len : Nat)
  | replaceContents (len : Nat)
  | setCurrent (m : SentMessage)
  | close (m : SentMessage)
  | forget
  | addMessage
  | removeMessage (kind : MsgKind) (name : String)
  | destroyQuery
  | loadHba (opened : Bool) (ops : List WorkOp)

namespace Heap

variable (h : Heap)

/-- The pool of the session. -/
def owner : PoolId := .session h.session

/-- The pool that `pool_memory` points to. -/
def workPool : Site → PoolId
  | .process => .process
  | .query =>
      match h.control.queryContext with
      | some qc => .query qc
      | none => h.owner

def setControl (c : Control) : Heap := { h with control := c }
def setMemory (m : Memory PoolId) : Heap := { h with memory := m }

/-- `pool_sent_message_destroy`, but for the references. -/
def destroyMessage (m : SentMessage) : Heap :=
  let chunks := h.chunks m.id
  let memory := h.memory.freeAll h.owner [chunks .contents, chunks .name]
  let memory :=
    if h.control.refCount m.queryContext ≤ 1 then
      memory.poolMemoryDelete (.query m.queryContext) false
    else memory
  { h with
    memory := memory.poolMemoryFree h.owner (chunks .message)
    destroyed := fun i => i == m.id || h.destroyed i }

/-- `pool_remove_sent_message`. -/
def removeMessage (kind : MsgKind) (name : String) : Heap :=
  match h.control.find kind name with
  | none => h
  | some m => (h.destroyMessage m).setControl (h.control.removeMessage kind name)

/-- `pool_add_sent_message`. -/
def addMessage (u : SentMessage) : Heap :=
  match h.control.find u.kind u.name with
  | some _ =>
      if u.name = "" then
        let h := h.removeMessage u.kind u.name
        h.setControl (h.control.append u)
      else h
  | none => h.setControl (h.control.append u)

/-- `pool_create_sent_message`. -/
def createMessage (m : SentMessage) (len : Nat) : Heap :=
  let (message, memory) := h.memory.poolMemoryAlloc h.owner sizeofSentMessage
  let (contents, memory) := memory.poolMemoryAlloc h.owner len
  let (name, memory) := memory.poolMemoryAlloc h.owner (m.name.utf8ByteSize + 1)
  { h with
    control := h.control.attempt m
    memory := memory
    chunks := fun i =>
      if i = m.id then
        fun
        | .message => message
        | .contents => contents
        | .name => name
      else h.chunks i
    destroyed := fun i => i != m.id && h.destroyed i }

/-- `Parse` lets the contents of its message point to the rewritten text, which comes from
`pool_memory`: the pool of the query. -/
def replaceContents (u : SentMessage) (len : Nat) : Heap :=
  let (contents, memory) := h.memory.poolMemoryAlloc (h.workPool .query) len
  { h with
    memory := memory
    chunks := fun i f => if i = u.id ∧ f = .contents then contents else h.chunks i f }

/-- `load_hba`.  The variable keeps the address of a pool that has been deleted. -/
def loadHba (opened : Bool) (ops : List WorkOp) : Heap :=
  let memory := h.memory.freeAll .hba h.hbaLines
  if opened then
    let (held, memory) := memory.work .hba ops []
    { h with memory := memory, hbaLines := held }
  else { h with memory := memory.poolMemoryDelete .hba false, hbaLines := [] }

/-- `pool_query_context_destroy` for the current context. -/
def destroyQuery : Heap :=
  match h.control.queryContext with
  | none => h
  | some qc =>
      { h with
        control := h.control.queryContextDestroy qc
        memory := h.memory.poolMemoryDelete (.query qc) false }

/-- The flags of the control part. -/
def setFlags (inProgress extended success skip ignore : Bool) : Heap :=
  h.setControl { h.control with
    inProgress := inProgress
    doingExtendedQueryMessage := extended
    commandSuccess := success
    skipReadingFromBackends := skip
    ignoreTillSync := ignore }

/-- A new session, with a pool of its own. -/
def beginSession : Heap :=
  { h with
    control := h.control.ended
    memory := h.memory.poolMemoryCreate (.session (h.session + 1)) prepareBlockSize
    serving := true
    session := h.session + 1 }

/-- The session ends, and what is left of its messages goes with its pool. -/
def endSession : Heap :=
  { h with
    control := h.control.ended
    memory := h.memory.poolMemoryDelete h.owner false
    destroyed := fun _ => true
    serving := false }

/-- `pool_init_query_context` and `pool_start_query`. -/
def startQuery (sql : String) (node : Node) : Heap :=
  { h with
    control := h.control.startQuery sql node
    memory := h.memory.poolMemoryCreate (.query h.control.nextContext) parserBlockSize }

/-- A call in a session, `none` where the source cannot make it. -/
def call : Call → Option Heap
  | .beginSession => none
  | .endSession => some h.endSession
  | .flags inProgress extended success skip ignore =>
      some (h.setFlags inProgress extended success skip ignore)
  | .startQuery sql node => some (h.startQuery sql node)
  | .work site ops => some (h.setMemory (h.memory.work (h.workPool site) ops []).2)
  | .freeParser => some (h.setMemory (h.memory.poolMemoryDelete .process true))
  | .createMessage m len =>
      if m.id = h.control.nextMessage ∧ m.queryContext < h.control.nextContext then
        some (h.createMessage m len)
      else none
  | .replaceContents len =>
      match h.control.uncompletedMessage with
      | none => none
      | some u =>
          if u.kind = .P ∧ h.control.queryContext = some u.queryContext then
            some (h.replaceContents u len)
          else none
  | .setCurrent m =>
      if m ∈ h.control.messageList then some (h.setControl (h.control.setCurrent m.queryContext))
      else none
  | .close m =>
      if m ∈ h.control.messageList then some (h.setControl (h.control.setUncompleted (some m)))
      else none
  | .forget => some (h.setControl (h.control.setUncompleted none))
  | .addMessage =>
      match h.control.uncompletedMessage with
      | none => some h
      | some u => some (h.addMessage u)
  | .removeMessage kind name => some (h.removeMessage kind name)
  | .destroyQuery => some h.destroyQuery
  | .loadHba opened ops => some (h.loadHba opened ops)

/-- The state after a call. -/
def step (h : Heap) (c : Call) : Option Heap :=
  if h.serving then h.call c
  else
    match c with
    | .beginSession => some h.beginSession
    | _ => none

/-- A child that has just started: the pools of the process and of `pool_hba.c` are there. -/
def init : Heap where
  control := Child.init.session.control
  memory :=
    ((Memory.mk (fun _ => Pool.empty 0) (fun _ => 0) 0 []).poolMemoryCreate PoolId.process
      parserBlockSize).poolMemoryCreate .hba parserBlockSize
  chunks := fun _ _ => ⟨0, 0⟩
  destroyed := fun _ => true
  serving := false
  session := 0
  hbaLines := []

/-- The pending message can be added to the list: it has not been destroyed, nor has its context,
which is its own or that of a statement of the list; and if it is an entry itself, the one that a
Close names, then not one without a name. -/
structure Addable (u : SentMessage) : Prop where
  message : h.destroyed u.id = false
  context : h.control.destroyed u.queryContext = 0
  pending : h.control.Pending u
  named : u ∈ h.control.messageList → u.name ≠ ""

/-- The calls that keep to the ownership of the pools.  No Parse is rewritten, a completion or an
error finds the pending message in order, ReadyForQuery destroys no context of an entry, and
`load_hba` is not called again after its file could not be opened. -/
def Careful (h : Heap) : Call → Prop
  | .replaceContents _ => False
  | .addMessage => ∀ u, h.control.uncompletedMessage = some u → h.Addable u
  | .destroyQuery => ∀ qc, h.control.queryContext = some qc → ¬ h.control.Listed qc
  | .loadHba _ _ => Exists .hba h.memory.log
  | _ => True

end Heap

end PgPool
