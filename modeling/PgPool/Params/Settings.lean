import PgPool.Lib.Keyed

/-!
# Parameters of the backends and settings of the scanner

Each connection to a backend has a table of the parameters that the backend has reported, to which
`pool_add_param` adds.  On the way it calls `parser_set_param`, which sets the variables of the scanner,
of which the process has one each.  Some of those who read `ParameterStatus` messages call it, and some
throw them away.  The protocol is V3.
-/

namespace PgPool.Params

/-! ## The table -/

@[ext]
structure Param where
  name : String
  value : String
  deriving DecidableEq

def maxParamItems : Nat := 128

/-- Replace the value of the first parameter with the name. -/
def replaceParam (name value : String) : List Param → Option (List Param)
  | [] => none
  | p :: ps =>
    if p.name = name then some (⟨name, value⟩ :: ps) else (replaceParam name value ps).map (p :: ·)

/-- The table after `pool_add_param`; it fails where there is no room. -/
def poolAddParam (name value : String) (params : List Param) : Option (List Param) :=
  match replaceParam name value params with
  | some params => some params
  | none => if params.length ≥ maxParamItems then none else some (params ++ [⟨name, value⟩])

/-! ## The settings -/

inductive PgEnc where
  | sqlAscii | utf8
  deriving DecidableEq

/-- `standard_conforming_strings`, `server_encoding` and `server_version_num`. -/
structure Settings where
  standardConformingStrings : Bool
  serverEncoding : PgEnc
  serverVersionNum : Int
  deriving DecidableEq

def isSpace (c : Char) : Bool := c ∈ [' ', '\t', '\n', '\x0b', '\x0c', '\r']

def scanDigits (cs : List Char) : Option (Nat × List Char) :=
  if cs.takeWhile Char.isDigit = [] then none
  else some ((cs.takeWhile Char.isDigit).foldl (fun n c => 10 * n + (c.toNat - 48)) 0,
    cs.dropWhile Char.isDigit)

/-- `%d` -/
def scanInt (cs : List Char) : Option (Int × List Char) :=
  match cs.dropWhile isSpace with
  | '-' :: rest => (scanDigits rest).map fun p => (-p.1, p.2)
  | '+' :: rest => (scanDigits rest).map fun p => (p.1, p.2)
  | rest => (scanDigits rest).map fun p => (p.1, p.2)

/-- `.%d` -/
def scanDotInt : List Char → Option (Int × List Char)
  | '.' :: rest => scanInt rest
  | _ => none

def parseVersion (versionString : String) : Int :=
  match scanInt versionString.toList with
  | none => -1
  | some (vmaj, rest) =>
    match scanDotInt rest with
    | none => -1
    | some (vmin, rest) =>
      match scanDotInt rest with
      | none => (100 * vmaj + vmin) * 100 + 0
      | some (vrev, _) => (100 * vmaj + vmin) * 100 + vrev

def parserSetParam (name value : String) (s : Settings) : Settings :=
  if name = "server_version" then { s with serverVersionNum := parseVersion value }
  else if name = "server_encoding" then
    { s with serverEncoding := if value = "UTF8" then .utf8 else .sqlAscii }
  else if name = "standard_conforming_strings" then
    { s with standardConformingStrings := value = "on" }
  else s

/-! ## The child -/

/-- A connection to a backend; `reported` is what the backend has last reported for each parameter, which
the code does not keep. -/
structure Backend where
  params : List Param
  reported : String → Option String

def Backend.fresh : Backend := ⟨[], fun _ => none⟩

/-- The backend reports a parameter. -/
def Backend.report (b : Backend) (p : Param) : Backend :=
  { b with reported := fun name => if name = p.name then some p.value else b.reported name }

/-- `pool` has the connections of the child to the nodes, `current` is the one of its session, and `told`
are the parameters that the client has been sent when its connection was reused. -/
structure Child where
  settings : Settings
  pool : Nat → Nat → Backend
  current : Option Nat
  told : List Param

def Child.init : Child where
  settings := ⟨false, .sqlAscii, 0⟩
  pool _ _ := Backend.fresh
  current := none
  told := []

/-- Who reads a `ParameterStatus` message of the current session.
* `parameterStatus`: while a new connection is authenticated.
* `readKindFromBackend`: before any reply to the client or to a reset query.
* `doCommand`, `doQuery`, `doErrorCommand`: in the reply to a command of pgpool's own.
* `forwardToFrontend`: in a reply that is forwarded as it comes, in parallel mode.
* `discardPacket`: in a reply that is thrown away. -/
inductive Reader where
  | parameterStatus | readKindFromBackend | doCommand | doQuery | doErrorCommand
  | forwardToFrontend | discardPacket
  deriving DecidableEq

/-- The readers that call `pool_add_param`. -/
def Reader.stores : Reader → Bool
  | .parameterStatus | .readKindFromBackend => true
  | _ => false

/-- What can happen to a child.
* `connect`: a client comes, and new connections are opened for it.
* `reuse`: a client comes, and gets connections of the pool.  With an `application_name` the nodes get a
  `SET`, in whose replies `do_command` reads the reports.
* `report`: a node reports a parameter, while `virtualMaster` is the master of the current query.
* `leave`: the client leaves. -/
inductive Event where
  | connect (c : Nat)
  | reuse (c : Nat) (applicationName : Option (String × List (Nat × Param)))
  | report (node virtualMaster : Nat) (reader : Reader) (p : Param)
  | leave

namespace Child

/-- Change a connection to a node. -/
def update (s : Child) (c i : Nat) (f : Backend → Backend) : Child :=
  { s with pool := fun c' i' => if c' = c ∧ i' = i then f (s.pool c' i') else s.pool c' i' }

/-- `pool_add_param`, with its effect on the settings. -/
def addParam (s : Child) (c i : Nat) (p : Param) : Child :=
  match poolAddParam p.name p.value (s.pool c i).params with
  | none => s
  | some params =>
    { s.update c i fun b => { b with params := params } with
      settings := parserSetParam p.name p.value s.settings }

/-- The replies to the `SET`, which `do_command` throws away. -/
def doCommand (s : Child) (c : Nat) : List (Nat × Param) → Child
  | [] => s
  | (i, p) :: rest => doCommand (s.update c i (·.report p)) c rest

/-- The part of `connect_using_existing_connection` that sets the name of the application. -/
def setApplicationName (s : Child) (master c : Nat) : Option (String × List (Nat × Param)) → Child
  | none => s
  | some (name, replies) => (s.doCommand c replies).addParam c master ⟨"application_name", name⟩

/-- `send_params` -/
def sendParams (s : Child) (master c : Nat) : Child :=
  { s with told := (s.pool c master).params, current := some c }

/-- `master` is the master node. -/
def step (master : Nat) (s : Child) : Event → Option Child
  | .connect c =>
    some { s with
      pool := fun c' i => if c' = c then Backend.fresh else s.pool c' i
      current := some c }
  | .reuse c applicationName => some ((s.setApplicationName master c applicationName).sendParams master c)
  | .report node virtualMaster reader p =>
    match s.current with
    | none => none
    | some c =>
      if reader.stores = true ∧ node = virtualMaster then
        some ((s.update c node (·.report p)).addParam c node p)
      else some (s.update c node (·.report p))
  | .leave => some { s with current := none }

end Child

end PgPool.Params
