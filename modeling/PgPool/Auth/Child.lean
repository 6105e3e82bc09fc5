import PgPool.Auth.Password
import PgPool.Lib.Transition
import Mathlib.Logic.Function.Basic

/-!
# Authentication of the clients of a child

`pool_do_auth` for new connections, `pool_do_reauth` for pooled ones, and the part of `do_child` that
chooses between them.  What goes to the client is not modelled, only whether it gets through.
-/

namespace PgPool.Auth

/-! ## New connections -/

/-- `pool_read_kind` and `pool_read_int`: `w` bytes of every valid node, compared with those of the
master.  The bytes of the master count as zero until its turn has come, and the result is what the
last node has sent. -/
def readSame (w master : Nat) (stream : Nat → List UInt8) :
    List Nat → List UInt8 → List UInt8 → Option (List UInt8)
  | [], _, last => some last
  | i :: is, expected, _ =>
    if (stream i).length < w then none
    else if i = master then readSame w master stream is ((stream i).take w) ((stream i).take w)
    else if (stream i).take w ≠ expected then none
    else readSame w master stream is expected ((stream i).take w)

/-- `pool_read_message_length`: the master first, then the other nodes. -/
def readLength (nodes : List Nat) (master : Nat) (stream : Nat → List UInt8) : Bool :=
  4 ≤ (stream master).length ∧ ntohl ((stream master).take 4) < 2 ^ 31 ∧
    ∀ i ∈ nodes, i ≠ master → (stream i).take 4 = (stream master).take 4

namespace Login

variable (cfg : Config) (l : Login)

/-- What a node sends before a password packet. -/
def request (i : Nat) : List UInt8 := (l.backend i).request

/-- The kind of authentication that the backends ask for, as far as `pool_do_auth` goes on with it. -/
def askedKind : Option Nat :=
  match readSame 1 l.master l.request (l.nodes cfg) [0] [0] with
  | none => none
  | some kind =>
    if kind ≠ [0x52] then none
    else if l.major = .v3 ∧
        readLength (l.nodes cfg) l.master (fun i => (l.request i).drop 1) = false then none
    else
      match readSame 4 l.master (fun i => (l.request i).drop (l.headerLen - 4)) (l.nodes cfg)
          [0, 0, 0, 0] [0, 0, 0, 0] with
      | none => none
      | some word => if rawInt word < 0 then none else some (ntohl word)

end Login

/-- The loops of `pool_do_auth` over the valid nodes: a negative result ends them, and the last
result is the one that is tested for zero. -/
def eachNode {σ : Type} (act : Nat → σ → Int × σ) : List Nat → Int → σ → Int × σ
  | [], kind, s => (kind, s)
  | i :: is, _, s =>
    let (kind, s) := act i s
    if kind < 0 then (-1, s) else eachNode act is kind s

/-- One step of such a loop: the connection of the node and the static variables. -/
def onNode {τ : Type} (act : Nat → Conn → τ → Int × Conn × τ) (i : Nat) (s : (Nat → Conn) × τ) :
    Int × (Nat → Conn) × τ :=
  let (kind, conn, st) := act i (s.1 i) s.2
  (kind, Function.update s.1 i conn, st)

/-- The branches of `pool_do_auth`, up to the test of `authkind`. -/
def authenticate (cfg : Config) (l : Login) (asked : Nat) (st : Statics) :
    Int × (Nat → Conn) × Statics :=
  if asked = 0 then (if l.sends l.master then 0 else -1, fun _ => Conn.fresh, st)
  else if asked = 3 then
    let (kind, conns, clear) := eachNode (onNode fun i => doClearTextPassword l i false)
      (l.nodes cfg) 3 (fun _ => Conn.fresh, st.clear)
    (kind, conns, { st with clear })
  else if asked = 4 then
    let (kind, conns, crypt) := eachNode (onNode fun i => doCrypt l i false)
      (l.nodes cfg) 4 (fun _ => Conn.fresh, st.crypt)
    (kind, conns, { st with crypt })
  else if asked = 5 then
    if l.uaMD5 = false ∧ cfg.rawMode = false ∧ 1 < cfg.numBackends then
      (-1, fun _ => Conn.fresh, st)
    else
      let (kind, conns, md5) := eachNode (onNode fun i => doMd5 cfg l i false)
        (l.nodes cfg) 5 (fun _ => Conn.fresh, st.md5)
      (kind, conns, { st with md5 })
  else (-1, fun _ => Conn.fresh, st)

/-! ## Pooled connections -/

/-- A pooled connection: its startup packet and what became of each node.  `kind` records the kind of
authentication that the backends asked for. -/
structure Pool where
  user : String
  database : String
  major : Proto
  startup : List UInt8
  slots : Nat → Option Conn
  kind : Nat

/-- `pool_do_auth`: whether the client is admitted, and the connection if it is. -/
def poolDoAuth (cfg : Config) (l : Login) (st : Statics) : Option Pool × Statics :=
  if l.master ∉ l.nodes cfg then (none, st)
  else
    match l.askedKind cfg with
    | none => (none, st)
    | some asked =>
      let (kind, conns, st) := authenticate cfg l asked st
      if kind = 0 ∧ l.finish = true then
        (some {
          user := l.user, database := l.database, major := l.major, startup := l.startup
          slots := fun i => if i ∈ l.nodes cfg then some (conns i) else none
          kind := asked }, st)
      else (none, st)

/-- The switch of `pool_do_reauth`. -/
def reauthenticate (cfg : Config) (l : Login) (conn : Conn) (st : Statics) : Int × Statics :=
  if conn.authKind = 0 then (0, st)
  else if conn.authKind = 3 then
    let (status, _, clear) := doClearTextPassword l l.master true conn st.clear
    (status, { st with clear })
  else if conn.authKind = 4 then
    let (status, _, crypt) := doCrypt l l.master true conn st.crypt
    (status, { st with crypt })
  else if conn.authKind = 5 then
    let (status, _, md5) := doMd5 cfg l l.master true conn st.md5
    (status, { st with md5 })
  else (-1, st)

/-- `pool_do_reauth`. -/
def poolDoReauth (cfg : Config) (l : Login) (conn : Conn) (st : Statics) : Bool × Statics :=
  let (status, st) := reauthenticate cfg l conn st
  (status = 0 ∧ l.sends l.master = true ∧ l.finish = true, st)

/-! ## The child -/

/-- How a client was admitted, with all that the decision could depend on. -/
inductive Admission where
  | auth (l : Login) (asked : Nat)
  | reauth (l : Login) (pool : Pool) (conn : Conn)

/-- A child: its pooled connections, the static variables, and whom it has admitted. -/
structure Child where
  pools : List Pool
  statics : Statics
  log : List Admission

/-- What can happen: a client comes, or a pooled connection goes, for whatever reason. -/
inductive Event where
  | login (l : Login)
  | discard (n : Nat)

namespace Child

variable (cfg : Config) (c : Child)

def init : Child where
  pools := []
  statics := {
    clear := ⟨List.replicate 4 0, List.replicate maxPasswordSize 0, rfl⟩
    crypt := ⟨List.replicate 4 0, List.replicate maxPasswordSize 0, rfl⟩
    md5 := ⟨0, List.replicate maxPasswordSize 0, false⟩ }
  log := []

/-- The test of `pool_get_cp`. -/
def isFor (l : Login) (p : Pool) : Bool :=
  (p.slots l.master).isSome ∧ p.major = l.major ∧ p.user = l.user ∧ p.database = l.database

/-- A new connection, `connect_backend`. -/
def connectBackend (l : Login) (pools : List Pool) : Child :=
  if l.connects = false then { c with pools }
  else
    match poolDoAuth cfg l c.statics with
    | (none, statics) => { c with pools, statics }
    | (some pool, statics) =>
        { c with pools := pool :: pools, statics, log := .auth l pool.kind :: c.log }

/-- The pooled connection again, `connect_using_existing_connection`. -/
def connectUsingExisting (l : Login) (pool : Pool) (conn : Conn) : Child :=
  match poolDoReauth cfg l conn c.statics with
  | (true, statics) => { c with statics, log := .reauth l pool conn :: c.log }
  | (false, statics) => { c with statics }

/-- The pooled connection that a client will reuse: the one for its user and database, if its sockets
are open and it was made by the same startup packet. -/
def reused (l : Login) : Option (Pool × Conn) :=
  match c.pools.find? (isFor l) with
  | none => none
  | some pool =>
    if l.broken = true ∨ pool.startup ≠ l.startup then none
    else
      match pool.slots l.master with
      | none => none
      | some conn => some (pool, conn)

/-- A client is served.  A pooled connection that it cannot reuse is discarded. -/
def login (l : Login) : Child :=
  match reused c l with
  | none => connectBackend cfg c l (c.pools.eraseP (isFor l))
  | some (pool, conn) => connectUsingExisting cfg c l pool conn

/-- A step of the child. -/
def step : Event → Option Child
  | .login l => some (login cfg c l)
  | .discard n => some { c with pools := c.pools.eraseIdx n }

end Child

end PgPool.Auth
