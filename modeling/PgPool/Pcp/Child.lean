import PgPool.Lib.Transition
import PgPool.Pcp.Auth

/-!
# The pcp child

The loop of `pcp_do_child` over the connections it accepts.  `authenticated`, `salt` and
`random_salt` are local variables of the loop: they outlive a connection unless the branch that
closes it resets them.  What a command does besides is not modelled; the process ends, without a
further step, wherever the source exits.
-/

namespace PgPool.Pcp

/-- What the child does on a connection.  The salts are counted, so that equal ones are told apart.
* `sent`: a salt goes to the client.
* `verified`: `user_authenticate` has checked a packet against a salt.
* `executed`: a packet other than `R` and `M` is processed. -/
inductive Deed where
  | accepted (conn : Nat)
  | sent (conn salt : Nat)
  | verified (conn salt : Nat) (ok : Bool)
  | executed (conn : Nat) (tos : Char)
  | closed (conn : Nat)
  deriving DecidableEq, Repr

/-- The variables of `pcp_do_child`, and what has been done so far, the latest first. -/
structure PcpChild where
  frontend : Option Nat
  authenticated : Bool
  salt : List Char
  randomSalt : Bool
  line : List Char
  conns : Nat
  salts : Nat
  log : List Deed

/-- What the rest of the system contributes to a packet: the digest, the bytes of a new salt, the
password file, and whether the process survives the command. -/
structure PcpAnswers where
  newSalt : List Char
  file : Option (List Char)
  survives : Bool

/-- What can happen to the child.  The body of a packet of the least length is `none`, a null
pointer. -/
inductive PcpEvent where
  | accept
  | timeout
  | packet (tos : Char) (body : Option (List Char)) (ans : PcpAnswers)

/-- The commands that `pcp_do_child` knows, but for `R`, `M` and `X`. -/
def commands : List Char :=
  ['L', 'I', 'N', 'P', 'S', 'D', 'd', 'C', 'T', 'O', 'B', 'J', 'j', 'F']

namespace PcpChild

def init : PcpChild where
  frontend := none
  authenticated := false
  salt := []
  randomSalt := false
  line := List.replicate (maxFileLineLen + 1) nul
  conns := 0
  salts := 0
  log := []

variable (md5 : Md5Encrypt) (c : PcpChild)

/-- `pcp_do_accept`. -/
def accept : PcpChild :=
  { c with frontend := some c.conns, conns := c.conns + 1, log := .accepted c.conns :: c.log }

/-- `pcp_close` and `frontend = NULL`. -/
def close (conn : Nat) : PcpChild := { c with frontend := none, log := .closed conn :: c.log }

def setAuthenticated (b : Bool) : PcpChild := { c with authenticated := b }

/-- The case `R` once the packet has been checked, if it has. -/
def answerR (conn : Nat) : PcpChild :=
  if !c.randomSalt || !c.authenticated then { c.close conn with randomSalt := false }
  else { c with randomSalt := false }

/-- The case `R`. -/
def processR (conn : Nat) (body : Option (List Char)) (ans : PcpAnswers) : Option PcpChild :=
  if c.randomSalt then
    match body with
    | none => none
    | some buf =>
        match userAuthenticate md5 buf ans.file c.salt c.line with
        | none => none
        | some (ok, line) =>
            some (answerR { c with
              authenticated := ok
              line := line
              log := .verified conn c.salts ok :: c.log } conn)
  else some (c.answerR conn)

/-- The case `M`. -/
def processM (conn : Nat) (ans : PcpAnswers) : PcpChild :=
  { c with
    salt := ans.newSalt
    randomSalt := true
    salts := c.salts + 1
    log := .sent conn (c.salts + 1) :: c.log }

/-- A packet is executed. -/
def execute (conn : Nat) (tos : Char) : PcpChild := { c with log := .executed conn tos :: c.log }

/-- The switch of `pcp_do_child`. -/
def processPacket (conn : Nat) (tos : Char) (body : Option (List Char)) (ans : PcpAnswers) :
    Option PcpChild :=
  if tos = 'R' then c.processR md5 conn body ans
  else if tos = 'M' then some (c.processM conn ans)
  else if tos = 'X' then some (((c.execute conn tos).setAuthenticated false).close conn)
  else if tos ∈ commands then some (c.execute conn tos)
  else none

/-- One pass of the loop, `none` where the process ends or the event cannot happen. -/
def step (c : PcpChild) (e : PcpEvent) : Option PcpChild :=
  match c.frontend, e with
  | none, .accept => some c.accept
  | some conn, .timeout => some ((c.setAuthenticated false).close conn)
  | some conn, .packet tos body ans =>
      if !c.authenticated && (tos != 'R' && tos != 'M') then some (c.close conn)
      else if ans.survives then c.processPacket md5 conn tos body ans
      else none
  | _, _ => none

end PcpChild

/-! ## What authentication means -/

/-- The connection has been authenticated by now: a packet on it has answered a salt that was sent on
it. -/
def Authorised (log : List Deed) (conn : Nat) : Prop :=
  ∃ d ∈ log, match d with
    | .verified conn' salt true => conn' = conn ∧ .sent conn salt ∈ log
    | _ => False

instance (log : List Deed) (conn : Nat) : Decidable (Authorised log conn) :=
  have : ∀ d : Deed, Decidable (match d with
      | .verified conn' salt true => conn' = conn ∧ .sent conn salt ∈ log
      | _ => False) := by
    intro d
    split <;> infer_instance
  inferInstanceAs (Decidable (∃ d ∈ log, _))

/-- A packet has been checked against the salt. -/
def Deed.verifies (salt : Nat) : Deed → Bool
  | .verified _ salt' _ => salt' == salt
  | _ => false

/-- Every packet that has been executed came on an authenticated connection, and no salt has been used
for two verifications. -/
def Guarded : List Deed → Prop
  | [] => True
  | .executed conn _ :: log => Authorised log conn ∧ Guarded log
  | .verified _ salt _ :: log => (∀ d ∈ log, d.verifies salt = false) ∧ Guarded log
  | _ :: log => Guarded log

instance decidableGuarded : ∀ log, Decidable (Guarded log)
  | [] => isTrue trivial
  | d :: log =>
    have : Decidable (Guarded log) := decidableGuarded log
    match d with
    | .executed _ _ | .verified _ _ _ => inferInstanceAs (Decidable (_ ∧ _))
    | .accepted _ | .sent _ _ | .closed _ => inferInstanceAs (Decidable (Guarded log))

end PgPool.Pcp
