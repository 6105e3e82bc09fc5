import PgPool.Control.Basic
import PgPool.Stream.Message

/-!
# Password packets

The three schemes of `pool_auth.c` by which a password goes from a client to a backend.  Each keeps
the packet in static variables, which the call for the master fills and the calls for the other
nodes use.
-/

namespace PgPool.Auth

/-- `MAX_PASSWORD_SIZE`, the size of the password buffers. -/
def maxPasswordSize : Nat := 1024

/-- Bytes at the front of a buffer. -/
def overwrite (buf data : List UInt8) : List UInt8 := data ++ buf.drop data.length

theorem length_overwrite {buf data : List UInt8} (h : data.length ≤ buf.length) :
    (overwrite buf data).length = buf.length := by
  simp only [overwrite, List.length_append, List.length_drop]
  omega

/-- The static variables of `do_clear_text_password` and of `do_crypt`; `size` is an `int` as it came
over the wire. -/
structure Static where
  size : List UInt8
  password : List UInt8
  size_length : size.length = 4

/-- Bytes that are read into `size`. -/
def Static.readSize (st : Static) (bytes : List UInt8) : Static where
  size := overwrite st.size (bytes.take 4)
  password := st.password
  size_length := by
    rw [length_overwrite (by rw [st.size_length]; exact List.length_take_le 4 bytes), st.size_length]

/-- The static variables of `do_md5`; `size` without the length word.  `overrun` records that a byte
was written behind `password`. -/
structure Md5Static where
  size : Int
  password : List UInt8
  overrun : Bool

/-- The static variables of the child. -/
structure Statics where
  clear : Static
  crypt : Static
  md5 : Md5Static

/-- The fields of a connection to a backend that authentication reads and writes. -/
structure Conn where
  authKind : Nat
  pwdSize : Int
  password : List UInt8
  salt : List UInt8

/-- A connection that has been opened, with its fields zero. -/
def Conn.fresh : Conn where
  authKind := 0
  pwdSize := 0
  password := List.replicate maxPasswordSize 0
  salt := List.replicate 4 0

/-- A node as it is seen during authentication: what it sends after the startup packet, and what it
sends in answer to a password packet. -/
structure Backend where
  request : List UInt8
  answer : List UInt8 → List UInt8

/-- The configuration.  `poolGetPasswd` is the password file, `pgMd5Encrypt` the digest of a password
and a salt. -/
structure Config where
  numBackends : Nat
  rawMode : Bool
  enablePoolHba : Bool
  poolGetPasswd : String → Option (List UInt8)
  pgMd5Encrypt : List UInt8 → List UInt8 → List UInt8

/-- A client that has sent its startup packet, and all that happens to it until it is admitted.
* `input`: what it sends as its password packet.
* `uaMD5`: the authentication method that `pool_hba.conf` gives it is md5.
* `salt`: the salt that `pool_random_salt` makes for it.
* `sends`: whether the messages that the calls for a node send to it get through.
* `finish`: the messages from `AuthenticationOk` to the end of the handshake get through.
* `connects`, `broken`: the backends can be reached; a socket of the pooled connection is closed. -/
structure Login where
  major : Proto
  user : String
  database : String
  startup : List UInt8
  input : List UInt8
  uaMD5 : Bool
  salt : List UInt8
  sends : Nat → Bool
  finish : Bool
  connects : Bool
  broken : Bool
  valid : Nat → Bool
  master : Nat
  backend : Nat → Backend

namespace Login

variable (cfg : Config) (l : Login)

/-- `frontend->username`, a null pointer where `pool_hba.conf` is not used. -/
def username : Option String := if cfg.enablePoolHba then some l.user else none

/-- The nodes over which the loops go. -/
def nodes : List Nat := (List.range cfg.numBackends).filter l.valid

/-- The length of the header of an authentication request. -/
def headerLen : Nat := if l.major = .v3 then 9 else 5

/-- What a node has sent after the header of its authentication request. -/
def rest (i : Nat) : List UInt8 := (l.backend i).request.drop l.headerLen

/-- What a password packet begins with. -/
def packetKind : List UInt8 := if l.major = .v3 then [0x70] else []

end Login

/-! ## Reading the packet of the client -/

/-- The size of a password in unsigned arithmetic: `ntohl(size) - 4`. -/
def passwordLen (size : List UInt8) : Nat := (ntohl size + 2 ^ 32 - 4) % 2 ^ 32

/-- What is read before the size of the packet: nothing in protocol V2, a `p` in V3. -/
def readKind (l : Login) : Option (List UInt8) :=
  if l.major = .v2 then some l.input
  else
    match l.input with
    | [] => none
    | k :: rest => if k = 0x70 then some rest else none

/-- The steps by which `do_clear_text_password` and `do_crypt` read a password packet into their
static variables, and whether they succeed.  A read that fails has stored what had come. -/
def readPassword (l : Login) (st : Static) : Bool × Static :=
  match readKind l with
  | none => (false, st)
  | some rest =>
    let st := st.readSize rest
    if rest.length < 4 then (false, st)
    else if passwordLen st.size > maxPasswordSize then (false, st)
    else
      (passwordLen st.size ≤ (rest.drop 4).length,
        { st with password := overwrite st.password ((rest.drop 4).take (passwordLen st.size)) })

/-- The conversion to `int`. -/
def toInt (n : Nat) : Int := if n < 2 ^ 31 then n else n - 2 ^ 32

/-- `read_password_packet`, with its null byte behind the password. -/
def readPasswordPacket (l : Login) (st : Md5Static) : Bool × Md5Static :=
  match readKind l with
  | none => (false, st)
  | some rest =>
    if rest.length < 4 then (false, st)
    else
      let st := { st with size := toInt (passwordLen (rest.take 4)) }
      if (maxPasswordSize : Int) < st.size then (false, st)
      else if st.size ≤ 0 then (false, st)
      else
        let body := (rest.drop 4).take st.size.toNat
        if body.length < st.size.toNat then
          (false, { st with password := overwrite st.password body })
        else
          (true, { st with
            password := overwrite st.password (body ++ [0])
            overrun := st.overrun || st.size == maxPasswordSize })

/-! ## The answer of a backend -/

/-- The `int` that four bytes are on a little-endian machine. -/
def rawInt (bytes : List UInt8) : Int := toInt (ntohl bytes.reverse)

/-- The kind in an answer to a password packet, or -1: an `R`, in protocol V3 the length 8, and four
bytes that are taken as they are. -/
def authResponse (l : Login) (bytes : List UInt8) : Int :=
  match bytes with
  | [] => -1
  | k :: rest =>
    if k ≠ 0x52 then -1
    else if l.major = .v3 then
      if rest.length < 4 ∨ ntohl (rest.take 4) ≠ 8 then -1
      else if (rest.drop 4).length < 4 then -1
      else rawInt ((rest.drop 4).take 4)
    else if rest.length < 4 then -1
    else rawInt (rest.take 4)

/-- What a node answers to a packet, where `salt` bytes of its request have been read as a salt. -/
def Login.exchange (l : Login) (i salt : Nat) (packet : List UInt8) : Int :=
  authResponse l ((l.rest i).drop salt ++ (l.backend i).answer packet)

/-! ## Clear text and crypt -/

/-- `do_clear_text_password` and `do_crypt` differ in the kind and the salt, and in the nodes for
which `AuthenticationOk` goes to the client. -/
structure Scheme where
  kind : Nat
  saltLen : Nat
  everyNode : Bool

def clearScheme : Scheme := ⟨3, 0, false⟩

def cryptScheme : Scheme := ⟨4, 2, true⟩

/-- The comparison with the saved packet when a connection is reused. -/
def reauthenticates (conn : Conn) (size : Int) (password : List UInt8) : Int :=
  if size ≠ conn.pwdSize then -1
  else if password.take conn.pwdSize.toNat ≠ conn.password.take conn.pwdSize.toNat then -1
  else 0

/-- The steps after the packet is in the static variables: it goes to the backend and is saved if the
backend accepts it. -/
def sendPassword (s : Scheme) (l : Login) (i : Nat) (conn : Conn) (st : Static) : Int × Conn :=
  let password := st.password.take (passwordLen st.size)
  let kind := l.exchange i s.saltLen (l.packetKind ++ st.size ++ password)
  if kind = 0 then
    if (i = l.master ∨ s.everyNode = true) ∧ l.sends i = false then (-1, conn)
    else
      (0, { conn with
        authKind := s.kind
        pwdSize := passwordLen st.size
        password := overwrite conn.password password
        salt := overwrite conn.salt ((l.rest i).take s.saltLen) })
  else (kind, conn)

/-- `do_clear_text_password` and `do_crypt`. -/
def doPassword (s : Scheme) (l : Login) (i : Nat) (reauth : Bool) (conn : Conn) (st : Static) :
    Int × Conn × Static :=
  if reauth = false ∧ (l.rest i).length < s.saltLen then (-1, conn, st)
  else
    let (ok, st) := if i = l.master then readPassword l st else (true, st)
    if ok = false then (-1, conn, st)
    else if reauth then (reauthenticates conn (passwordLen st.size) st.password, conn, st)
    else
      let (kind, conn) := sendPassword s l i conn st
      (kind, conn, st)

def doClearTextPassword := doPassword clearScheme

def doCrypt := doPassword cryptScheme

/-! ## MD5 -/

/-- The packet of `send_password_packet` for a string. -/
def md5Packet (l : Login) (password : List UInt8) : List UInt8 :=
  l.packetKind ++ htonl ((cString password).length + 5) ++ cString password ++ [0]

/-- `pool_passwd + strlen("md5")` under a salt. -/
def encrypted (cfg : Config) (passwd salt : List UInt8) : List UInt8 :=
  cfg.pgMd5Encrypt (passwd.drop 3) salt

/-- `do_md5` with several nodes: the password file vouches for the client.  A null user name ends the
child. -/
def doMd5Several (cfg : Config) (l : Login) (i : Nat) (reauth : Bool) (conn : Conn) (st : Md5Static) :
    Int × Conn × Md5Static :=
  match (l.username cfg).bind cfg.poolGetPasswd with
  | none => (-1, conn, st)
  | some passwd =>
    let (ok, st) :=
      if i = l.master then
        let (ok, st) := readPasswordPacket l st
        (ok && cString st.password == cString (encrypted cfg passwd l.salt), st)
      else (true, st)
    if ok = false then (-1, conn, st)
    else if reauth then (0, conn, st)
    else if (l.rest i).length < 4 then (-1, conn, st)
    else
      let kind := l.exchange i 4 (md5Packet l (encrypted cfg passwd ((l.rest i).take 4)))
      if kind = 0 then
        if i = l.master ∧ l.sends i = false then (-1, conn, st)
        else (0, { conn with authKind := 5 }, st)
      else (max kind (-1), conn, st)

/-- `do_md5` with one node: the packet of the client goes through. -/
def doMd5Single (l : Login) (i : Nat) (reauth : Bool) (conn : Conn) (st : Md5Static) :
    Int × Conn × Md5Static :=
  if reauth = false ∧ (l.rest i).length < 4 then (-1, conn, st)
  else
    let (ok, st) := if i = l.master then readPasswordPacket l st else (true, st)
    if ok = false then (-1, conn, st)
    else if reauth then (reauthenticates conn st.size st.password, conn, st)
    else
      let kind := l.exchange i 4 (md5Packet l st.password)
      if kind = 0 then
        if l.sends i = false then (-1, conn, st)
        else
          (0, { conn with
            authKind := 5
            pwdSize := st.size
            password := overwrite conn.password (st.password.take st.size.toNat)
            salt := overwrite conn.salt ((l.rest i).take 4) }, st)
      else (max kind (-1), conn, st)

/-- `do_md5`. -/
def doMd5 (cfg : Config) (l : Login) (i : Nat) (reauth : Bool) (conn : Conn) (st : Md5Static) :
    Int × Conn × Md5Static :=
  if 1 < cfg.numBackends then doMd5Several cfg l i reauth conn st else doMd5Single l i reauth conn st

end PgPool.Auth
