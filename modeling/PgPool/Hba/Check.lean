import Mathlib.Data.BitVec
import PgPool.Hba.Tokens
import PgPool.Lib.Radix

/-!
# Looking a connection up

`check_hba`, `parse_hba` and the functions of `pool_ip.c` that they use.  `getaddrinfo`, of a numeric
address, is a parameter.
-/

namespace PgPool.Hba

/-! ## Addresses -/

/-- The address in a `sockaddr_storage`. -/
inductive SockAddr where
  | unix
  | inet (addr : BitVec 32)
  | inet6 (addr : BitVec 128)
  deriving DecidableEq

/-- `promote_v4_to_v6_addr`. -/
def promoteAddr (addr : BitVec 32) : BitVec 128 := 0xffff00000000 ||| addr.setWidth 128

/-- `promote_v4_to_v6_mask`. -/
def promoteMask (mask : BitVec 32) : BitVec 128 := (BitVec.allOnes 96 ++ mask : BitVec (96 + 32))

/-- `rangeSockAddr`, behind the test of the families in `parse_hba`. -/
def rangeSockAddr : SockAddr → SockAddr → SockAddr → Bool
  | .inet addr, .inet netaddr, .inet netmask => (addr ^^^ netaddr) &&& netmask == 0
  | .inet6 addr, .inet6 netaddr, .inet6 netmask => (addr ^^^ netaddr) &&& netmask == 0
  | .inet6 addr, .inet netaddr, .inet netmask =>
    (addr ^^^ promoteAddr netaddr) &&& promoteMask netmask == 0
  -- line does not match client port
  | _, _, _ => false

def decimalDigit (c : UInt8) : Option Nat := if 48 ≤ c ∧ c ≤ 57 then some (c.toNat - 48) else none

/-- `isspace`. -/
def isSpace (c : UInt8) : Bool := c == 32 || (9 ≤ c && c ≤ 13)

/-- `strtol` of a whole string that is not empty. -/
def strtol (numbits : Bytes) : Option Int :=
  let text := numbits.dropWhile isSpace
  let negative := text.head? == some 45
  let text := if text.head? = some 45 ∨ text.head? = some 43 then text.tail else text
  match Radix.leading decimalDigit text with
  | ([], _) | (_, _ :: _) => none
  | (ds, []) => some (if negative then -(Radix.value 10 ds : Int) else Radix.value 10 ds)

/-- A mask of `w` bits that begins with so many ones. -/
def maskOf (w bits : Nat) : BitVec w := BitVec.allOnes w <<< (w - bits)

/-- `SockAddr_cidr_mask`. -/
def cidrMask (numbits : Bytes) (family : SockAddr) : Option SockAddr := do
  let bits ← strtol numbits
  match family with
  | .inet _ => if bits < 0 ∨ 32 < bits then none else some (.inet (maskOf 32 bits.toNat))
  | .inet6 _ => if bits < 0 ∨ 128 < bits then none else some (.inet6 (maskOf 128 bits.toNat))
  | .unix => none

/-- The families are the same. -/
def sameFamily : SockAddr → SockAddr → Bool
  | .unix, .unix | .inet _, .inet _ | .inet6 _, .inet6 _ => true
  | _, _ => false

/-! ## Records -/

inductive UserAuth where
  | trust
  | reject
  | md5
  | pam
  deriving DecidableEq, Repr

/-- How the program has been compiled, and the resolver. -/
structure Build where
  useSsl : Bool
  usePam : Bool
  getaddrinfo : Bytes → Option SockAddr

/-- A client. -/
structure Connection where
  raddr : SockAddr
  ssl : Bool
  database : Bytes
  username : Bytes

def str (text : String) : Bytes := text.toList.map fun c => UInt8.ofNat c.toNat

/-- `parse_hba_auth`: the tokens that are left; `none`: `*error_p`. -/
def parseHbaAuth (b : Build) : List Bytes → Option UserAuth
  | [] => none
  | token :: more => do
    let auth ←
      if token = str "trust" then some .trust
      else if token = str "reject" then some .reject
      else if token = str "md5" then some .md5
      else if b.usePam && token == str "pam" then some .pam
      else none
    -- the authentication argument, and nothing else
    if 1 < more.length then none else some auth

/-- The pieces that `strtok` finds: those between separators that are not empty. -/
def strtok (paramStr : Bytes) : List Bytes := (paramStr.splitOn multiValueSep).filter (· ≠ [])

/-- The loop of `check_user`. -/
def checkUserLoop (user : Bytes) : List Bytes → Bool
  | [] => false
  | tok :: toks =>
    -- group token is not supported in pgpool
    if tok.head? = some 43 then false
    else if tok = user ∨ tok = str "all\n" then true
    else checkUserLoop user toks

def checkUser (user paramStr : Bytes) : Bool := checkUserLoop user (strtok paramStr)

/-- The loop of `check_db`. -/
def checkDbLoop (dbname user : Bytes) : List Bytes → Bool
  | [] => false
  | tok :: toks =>
    if tok = str "all\n" then true
    else if tok = str "sameuser\n" then
      if dbname = user then true else checkDbLoop dbname user toks
    -- group token is not supported in pgpool
    else if tok = str "samegroup\n" then false
    else if tok = dbname then true
    else checkDbLoop dbname user toks

def checkDb (dbname user paramStr : Bytes) : Bool := checkDbLoop dbname user (strtok paramStr)

/-- What a line says about a connection. -/
inductive LineResult where
  | noMatch
  | found (auth : UserAuth)
  | error
  deriving DecidableEq

/-- The end of `parse_hba`: does the entry match database and user? -/
def matchNames (conn : Connection) (db user : Bytes) (auth : UserAuth) : LineResult :=
  if checkDb conn.database conn.username db && checkUser conn.username user then .found auth
  else .noMatch

/-- Where the address of a record comes from: with a number of bits behind a slash, or with a mask in the
next field.  The result has the fields behind. -/
def parseAddress (b : Build) : List Bytes → Option (SockAddr × SockAddr × List Bytes)
  | [] => none
  | token :: more =>
    let host := token.takeWhile (· != 47)
    match b.getaddrinfo host with
    | none => none
    | some addr =>
      if token.contains 47 then
        (cidrMask (token.drop (host.length + 1)) addr).map fun mask => (addr, mask, more)
      else
        match more with
        | [] => none
        | token :: more =>
          match b.getaddrinfo token with
          | none => none
          | some mask => if sameFamily addr mask then some (addr, mask, more) else none

/-- The branch for `local`, behind the type. -/
def parseLocal (b : Build) (conn : Connection) : List Bytes → LineResult
  | db :: user :: auth =>
    match parseHbaAuth b auth with
    | none => .error
    | some auth => if conn.raddr = .unix then matchNames conn db user auth else .noMatch
  | _ => .error

/-- The branch for `host`, `hostssl` and `hostnossl`, behind the tests of the type. -/
def parseHost (b : Build) (conn : Connection) : List Bytes → LineResult
  | db :: user :: more =>
    match parseAddress b more with
    | none => .error
    | some (addr, mask, auth) =>
      if rangeSockAddr conn.raddr addr mask then
        match parseHbaAuth b auth with
        | none => .error
        | some auth => matchNames conn db user auth
      else .noMatch
  | _ => .error

/-- `parse_hba`. -/
def parseHba (b : Build) (conn : Connection) : List Bytes → LineResult
  | [] => .error
  | token :: more =>
    if token = str "local" then parseLocal b conn more
    else if token = str "host" then parseHost b conn more
    else if token = str "hostssl" then
      -- we do not accept this keyword at all if no SSL support
      if !b.useSsl then .error else if !conn.ssl then .noMatch else parseHost b conn more
    else if token = str "hostnossl" then
      if b.useSsl && conn.ssl then .noMatch else parseHost b conn more
    else .error

/-- `check_hba`: the method; `none`: there is an error in the file. -/
def checkHba (b : Build) (conn : Connection) : List HbaLine → Option UserAuth
  -- if no matching entry was found, synthesize 'reject' entry
  | [] => some .reject
  | line :: lines =>
    match parseHba b conn line.tokens with
    | .noMatch => checkHba b conn lines
    | .found auth => some auth
    | .error => none

end PgPool.Hba
