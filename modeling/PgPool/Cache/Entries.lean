import PgPool.Auth.Startup

/-!
# The connection pool of a child

`pool_connection_pool.c`, and the handler of `child.c` that closes idle connections.  An entry of the
pool has a slot for each node; which nodes are valid and which is the master may differ from call to
call.  Connections and startup packets are referred to by their addresses.  `none` says that the
process is gone: it has followed a null pointer, or left because it could not connect.
-/

namespace PgPool.Cache

/-- `POOL_CONNECTION_POOL_SLOT`. -/
structure Slot where
  sp : Option (Nat × Startup.StartupPacket)
  con : Nat
  closetime : Nat

/-- `POOL_CONNECTION_POOL`, with the counters of `info`. -/
structure Entry where
  slots : Nat → Option Slot
  counter : Nat → Nat

/-- What has been given back: the connections that are closed, and the startup packets. -/
structure Heap where
  closed : List Nat
  freed : List Nat

/-- `pool_connection_pool` and `pool_index`. -/
structure ConnectionPool where
  entries : Nat → Entry
  heap : Heap
  poolIndex : Nat

/-- `max_pool`, `connection_life_time`, `NUM_BACKENDS`, `VALID_BACKEND` and `MASTER_NODE_ID`. -/
structure Env where
  maxPool : Nat
  connectionLifeTime : Nat
  numBackends : Nat
  validBackend : Nat → Bool
  masterNodeId : Nat

/-- The nodes at which a loop over the backends does not `continue`. -/
def Env.validNodes (env : Env) : List Nat := (List.range env.numBackends).filter env.validBackend

theorem Env.mem_validNodes {env : Env} {n : Nat} :
    n ∈ env.validNodes ↔ n < env.numBackends ∧ env.validBackend n = true := by
  rw [validNodes, List.mem_filter, List.mem_range]

/-- The size of a pointer on a 64-bit machine. -/
def pointerSize : Nat := 8

/-- `sizeof(POOL_CONNECTION_POOL_SLOT)`: `sp`, `pid`, `key`, `con` and `closetime`. -/
def slotSize : Nat := pointerSize + 4 + 4 + pointerSize + 8

/-- `TMINTMAX`. -/
def tmintmax : Nat := 0x7fffffff

namespace Entry

variable (env : Env) (p : Entry)

/-- `MASTER_CONNECTION`. -/
def masterConnection : Option Slot := p.slots env.masterNodeId

/-- The startup packet of the master. -/
def sp : Option Startup.StartupPacket := ((p.masterConnection env).bind Slot.sp).map Prod.snd

/-- The tests that the loops over the pool begin with. -/
def pooled : Bool := ((p.sp env).bind Startup.StartupPacket.user).isSome

/-- The close time of the master, 0 without a slot. -/
def closetime : Nat := ((p.masterConnection env).map Slot.closetime).getD 0

/-- The entry is pooled, and nobody uses it. -/
def idle : Bool := p.pooled env && p.closetime env != 0

/-- The connection to a node. -/
def con (n : Nat) : Option Nat := (p.slots n).map Slot.con

/-- Overwrite the close time of the master. -/
def setClosetime (t : Nat) : Entry :=
  { p with
    slots := fun n =>
      if n = env.masterNodeId then (p.slots n).map ({ · with closetime := t }) else p.slots n }

/-- Close a connection and free its slot, and the startup packet as well if that is to be. -/
def closeNode (packet : Bool) (n : Nat) (h : Heap) : Option Heap :=
  (p.slots n).map fun s =>
    { closed := s.con :: h.closed
      freed := if packet then (s.sp.map Prod.fst).toList ++ h.freed else h.freed }

/-- The loops that close an entry.  `packet` says whether the startup packet is freed, from whether it
has been and from the node. -/
def closeNodes (packet : Bool → Nat → Bool) : List Nat → Bool → Heap → Option Heap
  | [], _, h => some h
  | n :: nodes, freed, h =>
      (p.closeNode (packet freed n) n h).bind (closeNodes packet nodes (freed || packet freed n))

/-- The startup packet is freed once. -/
def once (freed : Bool) (_ : Nat) : Bool := !freed

/-- `memset(p, 0, sizeof(POOL_CONNECTION_POOL))`, and that of `info`. -/
def cleared : Entry := ⟨fun _ => none, fun _ => 0⟩

/-- Whether `memset(p, 0, sizeof(POOL_CONNECTION_POOL_SLOT))` leaves a slot as it is.  `info` stands
in front of the slots. -/
def spared (n : Nat) : Bool := slotSize < pointerSize * (n + 2)

/-- `memset(p, 0, sizeof(POOL_CONNECTION_POOL_SLOT))`, and that of `info`. -/
def partlyCleared : Entry := ⟨fun n => if spared n then p.slots n else none, fun _ => 0⟩

/-- The comparison with a startup packet in `pool_get_cp`. -/
def isFor (user database : List UInt8) (protoMajor : Nat) : Bool :=
  match p.sp env with
  | some sp => sp.major == protoMajor && sp.user == some user && sp.database == some database
  | none => false

/-- The check of the sockets in `pool_get_cp`. -/
def sockBroken (broken : Nat → Bool) : Bool :=
  env.validNodes.any fun n => ((p.con n).map broken).getD true

end Entry

namespace ConnectionPool

variable (env : Env) (s : ConnectionPool)

/-- Overwrite an entry. -/
def setEntry (i : Nat) (p : Entry) (h : Heap) : ConnectionPool :=
  { s with entries := fun j => if j = i then p else s.entries j, heap := h }

/-- Close an entry at the valid nodes and clear it. -/
def close (packet : Bool → Nat → Bool) (i : Nat) : Option ConnectionPool :=
  ((s.entries i).closeNodes packet env.validNodes false s.heap).map (s.setEntry i .cleared)

/-- The first entry for a user and a database. -/
def findEntry (user database : List UInt8) (protoMajor : Nat) : Option Nat :=
  (List.range env.maxPool).find? fun i => (s.entries i).isFor env user database protoMajor

/-- The entry is marked to be in use. -/
def take (i : Nat) : ConnectionPool :=
  s.setEntry i { (s.entries i).setClosetime env 0 with
    counter := fun n =>
      if n < env.numBackends then (s.entries i).counter n + 1 else (s.entries i).counter n } s.heap

/-- The path of `pool_get_cp` for broken sockets. -/
def discardBroken (i : Nat) : Option ConnectionPool :=
  ((s.entries i).closeNodes Entry.once (env.validNodes.filter fun n => ((s.entries i).slots n).isSome) false
    s.heap).map (s.setEntry i (s.entries i).partlyCleared)

/-- `pool_get_cp`. -/
def poolGetCp (user database : List UInt8) (protoMajor : Nat) (checkSocket : Bool) (broken : Nat → Bool) :
    Option (Option Nat × ConnectionPool) :=
  match s.findEntry env user database protoMajor with
  | none => some (none, s)
  | some i =>
      if checkSocket && ((s.take env i).entries i).sockBroken env broken then
        ((s.take env i).discardBroken env i).map (none, ·)
      else some (some i, { s.take env i with poolIndex := i })

/-- The outcomes of `pool_get_cp`. -/
theorem poolGetCp_cases (user database : List UInt8) (protoMajor : Nat) (checkSocket : Bool)
    (broken : Nat → Bool) :
    s.findEntry env user database protoMajor = none ∧
        s.poolGetCp env user database protoMajor checkSocket broken = some (none, s) ∨
      ∃ i, s.findEntry env user database protoMajor = some i ∧
        ((checkSocket && ((s.take env i).entries i).sockBroken env broken) = false ∧
            s.poolGetCp env user database protoMajor checkSocket broken =
              some (some i, { s.take env i with poolIndex := i }) ∨
          (checkSocket && ((s.take env i).entries i).sockBroken env broken) = true ∧
            s.poolGetCp env user database protoMajor checkSocket broken =
              ((s.take env i).discardBroken env i).map (none, ·)) := by
  unfold poolGetCp
  cases hfind : s.findEntry env user database protoMajor with
  | none => exact Or.inl ⟨rfl, rfl⟩
  | some i =>
    refine Or.inr ⟨i, rfl, ?_⟩
    cases hbroken : checkSocket && ((s.take env i).entries i).sockBroken env broken with
    | false => exact Or.inl ⟨rfl, if_neg (by simp [hbroken])⟩
    | true => exact Or.inr ⟨rfl, if_pos hbroken⟩

/-- `pool_discard_cp`. -/
def poolDiscardCp (user database : List UInt8) (protoMajor : Nat) : Option ConnectionPool :=
  (s.poolGetCp env user database protoMajor false fun _ => false).bind fun
    | (none, t) => some t
    | (some i, t) => t.close env Entry.once i

/-- The first entry that is free. -/
def freeEntry : Option Nat :=
  (List.range env.maxPool).find? fun i => ((s.entries i).masterConnection env).isNone

/-- The entry with the earliest close time, the first of them. -/
def oldest : Nat :=
  (List.range env.maxPool).foldl
    (fun oldest i => if (s.entries i).closetime env < (s.entries oldest).closetime env then i else oldest) 0

/-- The part of `pool_create_cp` that discards the oldest entry.  All the startup packets are looked at. -/
def evict : Option ConnectionPool :=
  if (List.range env.maxPool).all fun i => ((s.entries i).sp env).isSome then
    ConnectionPool.close env { s with poolIndex := s.oldest env } Entry.once (s.oldest env)
  else none

/-- `new_connection`, with the connections that are opened. -/
def newConnection (i : Nat) (con : Nat → Option Nat) : Option (Option Nat × ConnectionPool) :=
  if env.validNodes.all fun n => (con n).isSome then
    some (if env.validNodes.isEmpty then none else some i,
      s.setEntry i { s.entries i with
        slots := fun n =>
          if n ∈ env.validNodes then (con n).map fun c => ⟨none, c, 0⟩ else (s.entries i).slots n } s.heap)
  else none

/-- `pool_create_cp`. -/
def poolCreateCp (con : Nat → Option Nat) : Option (Option Nat × ConnectionPool) :=
  match s.freeEntry env with
  | some i =>
      (s.newConnection env i con).map fun result =>
        (result.1, if result.1.isSome then { result.2 with poolIndex := i } else result.2)
  | none => (s.evict env).bind fun t => t.newConnection env (s.oldest env) con

/-- `pool_connection_pool_timer`, with the argument of `alarm` if that is called. -/
def poolConnectionPoolTimer (backend now : Nat) : Option (ConnectionPool × Option Nat) :=
  if ((s.entries backend).masterConnection env).isNone then none
  else
    let t := s.setEntry backend ((s.entries backend).setClosetime env now) s.heap
    some (t,
      if env.connectionLifeTime = 0 then none
      else if (List.range env.maxPool).any fun i => i != backend && (t.entries i).idle env then none
      else some env.connectionLifeTime)

/-- The entry is idle, and has been for `connection_life_time`. -/
def expired (now i : Nat) : Bool :=
  (s.entries i).idle env && (s.entries i).closetime env + env.connectionLifeTime ≤ now

/-- One turn of the loop of `pool_backend_timer`. -/
def timerTurn (now : Nat) (state : ConnectionPool × Nat) (i : Nat) : Option (ConnectionPool × Nat) :=
  let (s, nearest) := state
  if !(s.entries i).idle env then some (s, nearest)
  else if s.expired env now i then (s.close env Entry.once i).map (·, nearest)
  else some (s, if (s.entries i).closetime env < nearest then (s.entries i).closetime env else nearest)

/-- The argument of `alarm` for the nearest close time that remains. -/
def alarmFor (now nearest : Nat) : Nat :=
  let seconds : Int := env.connectionLifeTime - (now - nearest)
  if seconds ≤ 0 then 1 else seconds.toNat

/-- `pool_backend_timer`, with the argument of `alarm` if that is called. -/
def poolBackendTimer (now : Nat) : Option (ConnectionPool × Option Nat) :=
  ((List.range env.maxPool).foldlM (timerTurn env now) (s, tmintmax)).map fun result =>
    (result.1, if result.2 ≠ tmintmax then some (alarmFor env now result.2) else none)

/-- `close_idle_connection`: the startup packet is taken to be that of node 0, and `info` is cleared
for that node only. -/
def closeIdleConnection : Option ConnectionPool :=
  (List.range env.maxPool).foldlM (fun s i =>
    if (s.entries i).idle env then
      (s.close env (fun _ n => n == 0) i).map fun t =>
        t.setEntry i { t.entries i with
          counter := fun n => if n = 0 then 0 else (s.entries i).counter n } t.heap
    else some s) s

end ConnectionPool

end PgPool.Cache
