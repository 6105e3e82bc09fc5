import Mathlib.Data.List.Basic

/-!
# The password of a pcp client

`user_authenticate` of `pcp_child.c`.  Bytes are characters, a `char *` is the memory from there on,
and the static buffer `line` keeps what a shorter line does not overwrite.  Where the source reads
or writes outside of a buffer the result is `none`.
-/

namespace PgPool.Pcp

def maxFileLineLen : Nat := 512
def maxUserPasswdLen : Nat := 128
def md5PasswdLen : Nat := 32

/-- The terminator of a C string. -/
def nul : Char := '\x00'

/-- `pool_md5_encrypt`: the hexadecimal digest of a password with a salt behind it. -/
abbrev Md5Encrypt := List Char → List Char → List Char

/-- The C string at the start of some memory. -/
def cstring (mem : List Char) : List Char := mem.takeWhile (· != nul)

/-- `strncpy` of at most `MAX_USER_PASSWD_LEN` bytes. -/
def strncpy (mem : List Char) : Option (List Char) :=
  if nul ∈ mem.take maxUserPasswdLen ∨ maxUserPasswdLen ≤ mem.length then
    some (cstring (mem.take maxUserPasswdLen))
  else none

/-- The user name and the password of the packet. -/
def packetFields (buf : List Char) : Option (List Char × List Char) :=
  -- without a terminator `memchr` returns NULL, which is then read from
  if nul ∈ buf.take maxUserPasswdLen then
    (strncpy (buf.drop ((cstring buf).length + 1))).map fun password => (cstring buf, password)
  else none

/-- The next line of a file, `fgets` with room for `n` bytes. -/
def takeLine : Nat → List Char → List Char
  | 0, _ | _, [] => []
  | n + 1, c :: rest => if c = '\n' then [c] else c :: takeLine n rest

/-- `fgets(line, MAX_FILE_LINE_LEN, fp)`. -/
def fgets (line file : List Char) : Option (List Char × List Char) :=
  if file = [] then none
  else
    let read := takeLine (maxFileLineLen - 1) file
    some (read ++ [nul] ++ line.drop (read.length + 1), file.drop read.length)

/-- What a line of the file says about a user. -/
inductive LineResult where
  | skip
  | failed
  | undefined
  | password (password : List Char)
  deriving DecidableEq, Repr

/-- The password behind the colon at position `i`. -/
def filePassword (line : List Char) (i : Nat) (username : List Char) : LineResult :=
  let len := ((line.drop (i + 1)).takeWhile fun c => c != '\n' && c != nul).length
  if 0 < len ∧ maxUserPasswdLen < i + 1 + len then .failed
  -- `file_password` has room for a digest
  else if md5PasswdLen < len then .undefined
  else .password (cstring ((line.drop (username.length + 1)).take len))

/-- A line that has been read, for the user of a packet. -/
def readLine (line : List Char) (username : List Char) : LineResult :=
  if line.head? = some '\n' ∨ line.head? = some '#' then .skip
  else
    match (line.take (maxUserPasswdLen + 1)).findIdx? (· == ':') with
    | none => .failed
    | some i =>
        let fileUsername := cstring (line.take i)
        if username ≠ fileUsername then .skip else filePassword line i fileUsername

/-- What the client has to send: the digest of its password, and that with the salt. -/
def expected (md5 : Md5Encrypt) (username password salt : List Char) : List Char :=
  md5 (md5 password username) salt

/-- The loop over the lines.  Each pass consumes some of the file. -/
def authenticateLoop (md5 : Md5Encrypt) (username password salt : List Char) :
    Nat → List Char → List Char → Option (Bool × List Char)
  | 0, line, _ => some (false, line)
  | fuel + 1, line, file =>
      match fgets line file with
      | none => some (false, line)
      | some (line, file) =>
          match readLine line username with
          | .undefined => none
          | .failed => some (false, line)
          | .skip => authenticateLoop md5 username password salt fuel line file
          | .password filePassword =>
              if expected md5 username filePassword salt = password then some (true, line)
              else authenticateLoop md5 username password salt fuel line file

/-- `user_authenticate`, with the static buffer before and after the call.  A file that cannot be
opened is `none`. -/
def userAuthenticate (md5 : Md5Encrypt) (buf : List Char) (file : Option (List Char))
    (salt line : List Char) : Option (Bool × List Char) :=
  match packetFields buf with
  | none => none
  | some (username, password) =>
      match file with
      | none => some (false, line)
      | some file => authenticateLoop md5 username password salt file.length line file

variable {md5 : Md5Encrypt} {username password salt line line' file buf : List Char}

theorem password_of_authenticateLoop {fuel : Nat}
    (h : authenticateLoop md5 username password salt fuel line file = some (true, line')) :
    ∃ filePassword, password = expected md5 username filePassword salt := by
  induction fuel generalizing line file with
  | zero => cases h
  | succ fuel ih =>
    unfold authenticateLoop at h
    split at h
    · cases h
    · split at h
      · cases h
      · cases h
      · exact ih h
      · rename_i filePassword _
        split at h
        · rename_i heq
          exact ⟨filePassword, heq.symm⟩
        · exact ih h

/-- **Verification.** A packet is accepted only if it answers the salt with a password. -/
theorem password_of_userAuthenticate {file : Option (List Char)}
    (h : userAuthenticate md5 buf file salt line = some (true, line')) :
    ∃ username filePassword,
      packetFields buf = some (username, expected md5 username filePassword salt) := by
  unfold userAuthenticate at h
  split at h
  · cases h
  · rename_i username password hfields
    split at h
    · cases h
    · obtain ⟨filePassword, rfl⟩ := password_of_authenticateLoop h
      exact ⟨username, filePassword, hfields⟩

end PgPool.Pcp
