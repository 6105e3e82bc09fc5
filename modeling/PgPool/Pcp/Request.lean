import Mathlib.Algebra.Ring.Int.Defs
import Mathlib.Data.List.TakeWhile
import PgPool.Pcp.Guarded

/-!
# The payload of a pcp packet

What `pcp_do_child` reads of a packet, and which nodes it looks up.  A request is safe if nothing outside
of the packet is read, no buffer is overrun, only nodes of the table are looked up, and a packet that is
malformed is refused.
-/

namespace PgPool.Pcp

/-! ## Packets -/

/-- The body of a packet, by its length word. -/
inductive Payload where
  /-- The length word is less than 4: `rsize - sizeof(int)` is unsigned, and `malloc` fails. -/
  | failed
  /-- The length word is 4: the pointer stays NULL. -/
  | null
  | bytes (buf : List Char)
  deriving DecidableEq, Repr

structure Packet where
  tos : Char
  payload : Payload

def chr (b : UInt8) : Char := Char.ofNat b.toNat

/-- `ntohl` of four bytes, as an `int`. -/
def ntohl (a b c d : UInt8) : Int :=
  (BitVec.ofNat 32 (((a.toNat * 256 + b.toNat) * 256 + c.toNat) * 256 + d.toNat)).toInt

/-- The next packet of a connection, and what follows; `none` where the bytes end within it. -/
def readPacket : List UInt8 → Option (Packet × List UInt8)
  | tos :: a :: b :: c :: d :: rest =>
    let rsize := ntohl a b c d
    if rsize < 4 then some (⟨chr tos, .failed⟩, rest)
    else if rsize = 4 then some (⟨chr tos, .null⟩, rest)
    else
      let len := (rsize - 4).toNat
      if rest.length < len then none
      else some (⟨chr tos, .bytes ((rest.take len).map chr)⟩, rest.drop len)
  | _ => none

/-! ## Reading a number -/

def isSpaceChar (c : Char) : Bool := c == ' ' || (9 ≤ c.toNat && c.toNat ≤ 13)

def isDigitChar (c : Char) : Bool := 48 ≤ c.toNat && c.toNat ≤ 57

/-- `strtol` into a `long`, which is then cut to an `int`. -/
def toInt (n : Int) : Int := (BitVec.ofInt 32 (max (-2 ^ 63) (min (2 ^ 63 - 1) n))).toInt

/-- The digits at the start of some memory; `none` where they go on to its end. -/
def atoiDigits (negative : Bool) (mem : List Char) : Option Int :=
  let n : Nat := (mem.takeWhile isDigitChar).foldl (fun n c => 10 * n + (c.toNat - 48)) 0
  if mem.dropWhile isDigitChar = [] then none else some (toInt (if negative then -(n : Int) else n))

/-- `atoi` -/
def atoi (mem : List Char) : Option Int :=
  match mem.dropWhile isSpaceChar with
  | '-' :: rest => atoiDigits true rest
  | '+' :: rest => atoiDigits false rest
  | rest => atoiDigits false rest

/-! ## Requests -/

/-- `MAX_NUM_BACKENDS` -/
def maxNumBackends : Nat := 128

/-- What the handlers of node ids look at. -/
structure PcpConfig where
  numBackends : Nat
  replication : Bool
  parallelMode : Bool
  masterSlave : Bool
  /-- `master_slave_sub_mode` is that of streaming replication. -/
  streaming : Bool
  /-- `REAL_MASTER_NODE_ID` -/
  realMaster : Nat
  /-- `PRIMARY_NODE_ID` -/
  primary : Nat
  realMaster_lt : realMaster < numBackends
  numBackends_le : numBackends ≤ maxNumBackends

namespace PcpConfig

def rawMode (cfg : PcpConfig) : Bool := !cfg.replication && !cfg.parallelMode && !cfg.masterSlave

end PcpConfig

/-- What else a request depends on: the processes there are, and whether the frontends leave in time. -/
structure PcpWorld extends PcpAnswers where
  processes : List Int
  connectionsClosed : Bool

/-- The node ids that `VALID_BACKEND` looks up.  A pcp process has no session context. -/
def validBackend (cfg : PcpConfig) (id : Int) : List Int :=
  if cfg.rawMode then [] else [id]

/-- `degenerate_backend_set` with one node. -/
def degenerateBackendSet (cfg : PcpConfig) (id : Int) : List Int :=
  if cfg.parallelMode then []
  else if id < 0 ∨ (maxNumBackends : Int) ≤ id then []
  -- then the flag of the backend, if it is valid
  else validBackend cfg id ++ if cfg.rawMode ∧ id = cfg.realMaster then [id] else []

/-- `pool_detach_node` -/
def poolDetachNode (cfg : PcpConfig) (world : PcpWorld) (gracefully : Bool) (id : Int) : List Int :=
  if gracefully ∧ ¬world.connectionsClosed then [] else degenerateBackendSet cfg id

/-- `send_failback_request` -/
def sendFailbackRequest (cfg : PcpConfig) (id : Int) : List Int :=
  if id < 0 ∨ (maxNumBackends : Int) ≤ id then [] else if cfg.rawMode then [id] else []

/-- `start_recovery`: `VALID_BACKEND` first, without a check. -/
def startRecovery (id : Int) : List Int := [id]

/-- The check of the recovery request. -/
def recoveryRefused (cfg : PcpConfig) (id : Int) : Bool :=
  (!cfg.replication && !(cfg.masterSlave && cfg.streaming)) ||
    (cfg.masterSlave && cfg.streaming && id == cfg.primary)

/-- The checks of the promotion. -/
def promotionRefused (cfg : PcpConfig) (id : Int) : Bool :=
  id < 0 || (cfg.numBackends : Int) ≤ id || !cfg.masterSlave || !cfg.streaming || id == cfg.primary

/-- The commands that read a number from their payload. -/
def numbered : List Char := ['I', 'P', 'D', 'd', 'C', 'O', 'J', 'j']

/-- A command refuses its number: it sends an error, or ends the process. -/
def refuses (cfg : PcpConfig) (world : PcpWorld) (tos : Char) (id : Int) : Bool :=
  match tos with
  | 'I' => id < 0 || (cfg.numBackends : Int) ≤ id
  | 'P' => id != 0 && !world.processes.contains id
  | 'O' => recoveryRefused cfg id
  | 'J' | 'j' => promotionRefused cfg id
  | _ => false

/-- The node ids that are used as an index. -/
def lookups (cfg : PcpConfig) (world : PcpWorld) (tos : Char) (id : Int) : List Int :=
  match tos with
  | 'I' => [id]
  | 'D' => poolDetachNode cfg world false id
  | 'd' => poolDetachNode cfg world true id
  | 'C' => sendFailbackRequest cfg id
  | 'O' => startRecovery id
  -- `promote_backend` is for streaming replication
  | 'J' | 'j' => validBackend cfg id
  | _ => []

/-- What becomes of a packet. -/
inductive Handled where
  /-- Memory outside of the packet is read, or a buffer is overrun. -/
  | undefined
  /-- The connection is closed, or the process ends. -/
  | closed
  /-- An error is sent. -/
  | refused
  | done (nodes : List Int)
  deriving DecidableEq, Repr

/-- A packet that is processed in a state of the child. -/
structure Request where
  child : PcpChild
  packet : Packet
  world : PcpWorld

/-- The case `R`. -/
def handleR (md5 : Md5Encrypt) (c : PcpChild) (payload : Payload) (world : PcpWorld) : Handled :=
  if c.randomSalt then
    match payload with
    | .bytes buf =>
      match userAuthenticate md5 buf world.file c.salt c.line with
      | none => .undefined
      | some (true, _) => .done []
      | some (false, _) => .refused
    | _ => .undefined
  else .refused

/-- A command with a number. -/
def handleNumber (cfg : PcpConfig) (tos : Char) (payload : Payload) (world : PcpWorld) : Handled :=
  match payload with
  | .bytes buf =>
    match atoi buf with
    | none => .undefined
    | some id => if refuses cfg world tos id then .refused else .done (lookups cfg world tos id)
  | _ => .undefined

/-- The pass of the loop of `pcp_do_child`, with the switch. -/
def handle (md5 : Md5Encrypt) (cfg : PcpConfig) (r : Request) : Handled :=
  let tos := r.packet.tos
  if r.packet.payload = .failed then .closed
  else if !r.child.authenticated && (tos != 'R' && tos != 'M') then .closed
  else if tos = 'R' then handleR md5 r.child r.packet.payload r.world
  else if tos = 'M' then .done []
  else if tos ∈ numbered then handleNumber cfg tos r.packet.payload r.world
  -- the mode is the first character
  else if tos = 'T' then if r.packet.payload = .null then .undefined else .done []
  else if tos ∈ commands then .done []
  -- `X`, and what is not known
  else .closed

/-- The body as the loop of the child sees it. -/
def Payload.body : Payload → Option (List Char)
  | .bytes buf => some buf
  | _ => none

/-- The child after a request, if it goes on. -/
def next (md5 : Md5Encrypt) (cfg : PcpConfig) (r : Request) : Option PcpChild :=
  if r.packet.payload = .failed ∨ handle md5 cfg r = .undefined then none
  else PcpChild.step md5 r.child (.packet r.packet.tos r.packet.payload.body r.world.toPcpAnswers)

/-- The requests of a connection. -/
def requests (md5 : Md5Encrypt) (cfg : PcpConfig) :
    List PcpWorld → PcpChild → List UInt8 → List Request
  | [], _, _ => []
  | world :: worlds, c, stream =>
    match readPacket stream with
    | none => []
    | some (packet, rest) =>
      ⟨c, packet, world⟩ ::
        match next md5 cfg ⟨c, packet, world⟩ with
        | none => []
        | some c' => requests md5 cfg worlds c' rest

/-! ## Safety -/

/-- Two strings with their terminators. -/
def TwoStrings (buf : List Char) : Prop :=
  nul ∈ buf ∧ nul ∈ buf.drop ((cstring buf).length + 1)

/-- What the client library sends for a type. -/
def WellFormed (p : Packet) : Prop :=
  match p.payload with
  | .failed => False
  | .null => p.tos ∈ ['M', 'L', 'N', 'S', 'B', 'F', 'X']
  | .bytes buf =>
    (p.tos = 'R' → TwoStrings buf) ∧ (p.tos ∈ numbered → nul ∈ buf) ∧
      (p.tos ∈ ['R', 'M', 'X'] ∨ p.tos ∈ commands)

/-- The packet has been dealt with as it has to be. -/
structure Safe (md5 : Md5Encrypt) (cfg : PcpConfig) (r : Request) : Prop where
  inside : handle md5 cfg r ≠ .undefined
  inTable : ∀ nodes, handle md5 cfg r = .done nodes → ∀ id ∈ nodes, 0 ≤ id ∧ id < cfg.numBackends
  refused : ¬WellFormed r.packet → handle md5 cfg r = .closed ∨ handle md5 cfg r = .refused

/-! ## When a request is safe -/

/-- The lines as they stand in the buffer. -/
def fileLines : Nat → List Char → List Char → List (List Char)
  | 0, _, _ => []
  | fuel + 1, line, file =>
    match fgets line file with
    | none => []
    | some (line, file) => line :: fileLines fuel line file

/-- The line belongs to the user, and the password in it is longer than a digest. -/
def LongPassword (line username : List Char) : Prop :=
  ¬(line.head? = some '\n' ∨ line.head? = some '#') ∧
    ∃ i, (line.take (maxUserPasswdLen + 1)).findIdx? (· == ':') = some i ∧
      username = cstring (line.take i) ∧
      let len := ((line.drop (i + 1)).takeWhile fun c => c != '\n' && c != nul).length
      md5PasswdLen < len ∧ i + 1 + len ≤ maxUserPasswdLen

/-- The search goes on after the line. -/
def Passed (md5 : Md5Encrypt) (username password salt line : List Char) : Prop :=
  readLine line username = .skip ∨
    ∃ filePassword, readLine line username = .password filePassword ∧
      expected md5 username filePassword salt ≠ password

/-- Both strings of the packet end in it, or fill their buffer, and the search does not get to a password
that is too long. -/
structure Answerable (md5 : Md5Encrypt) (c : PcpChild) (file : Option (List Char)) (buf : List Char) :
    Prop where
  username : nul ∈ buf.take maxUserPasswdLen
  password : nul ∈ (buf.drop ((cstring buf).length + 1)).take maxUserPasswdLen ∨
    maxUserPasswdLen ≤ (buf.drop ((cstring buf).length + 1)).length
  file : ∀ content, file = some content → ∀ username password,
    packetFields buf = some (username, password) → ∀ pre line post,
      fileLines content.length c.line content = pre ++ line :: post →
      (∀ line' ∈ pre, Passed md5 username password c.salt line') → ¬LongPassword line username

/-- The node id of the command is in the table, or is not looked up. -/
def NodeInTable (cfg : PcpConfig) (world : PcpWorld) (tos : Char) (id : Int) : Prop :=
  match tos with
  | 'D' | 'd' => cfg.parallelMode = true ∨ cfg.rawMode = true ∨
      (tos = 'd' ∧ world.connectionsClosed = false) ∨ id < cfg.numBackends ∨ maxNumBackends ≤ id
  | 'C' => cfg.rawMode = false ∨ id < cfg.numBackends ∨ maxNumBackends ≤ id
  | 'O' => 0 ≤ id ∧ id < cfg.numBackends
  | _ => True

/-- What a request has to meet. -/
structure Meets (md5 : Md5Encrypt) (cfg : PcpConfig) (r : Request) : Prop where
  answer : r.packet.tos = 'R' → r.child.randomSalt = true →
    ∃ buf, r.packet.payload = .bytes buf ∧ Answerable md5 r.child r.world.file buf
  number : r.packet.tos ∈ numbered → ∃ buf id, r.packet.payload = .bytes buf ∧ atoi buf = some id ∧
    (refuses cfg r.world r.packet.tos id = true ∨
      nul ∈ buf ∧ NodeInTable cfg r.world r.packet.tos id)
  mode : r.packet.tos = 'T' → r.packet.payload ≠ .null

/-- The packet is processed at all. -/
def Admitted (r : Request) : Prop :=
  r.packet.payload ≠ .failed ∧ (r.child.authenticated = true ∨ r.packet.tos = 'R' ∨ r.packet.tos = 'M')

section

variable {md5 : Md5Encrypt} {cfg : PcpConfig} {world : PcpWorld} {r : Request} {c : PcpChild}
  {tos : Char} {id : Int} {payload : Payload} {buf line file username password salt : List Char}

/-! ### Authentication -/

theorem packetFields_eq_none : packetFields buf = none ↔
    ¬(nul ∈ buf.take maxUserPasswdLen ∧
      (nul ∈ (buf.drop ((cstring buf).length + 1)).take maxUserPasswdLen ∨
        maxUserPasswdLen ≤ (buf.drop ((cstring buf).length + 1)).length)) := by
  unfold packetFields strncpy
  split
  · next huser =>
    split
    · next hpassword => exact iff_of_false nofun (not_not_intro ⟨huser, hpassword⟩)
    · next hpassword => exact iff_of_true rfl fun h => hpassword h.2
  · next huser => exact iff_of_true rfl fun h => huser h.1

theorem readLine_eq_undefined : readLine line username = .undefined ↔ LongPassword line username := by
  unfold readLine LongPassword
  split
  · next hskip => exact iff_of_false nofun fun h => h.1 hskip
  · next hskip =>
    rw [and_iff_right hskip]
    split
    · next hcolon =>
      refine iff_of_false nofun fun ⟨i, hi, _⟩ => ?_
      rw [hcolon] at hi
      cases hi
    · next i hcolon =>
      have hfound : ∀ j, (line.take (maxUserPasswdLen + 1)).findIdx? (· == ':') = some j ↔ i = j := by
        intro j
        rw [hcolon, Option.some_inj]
      simp only [hfound, exists_eq_left']
      split
      · next hother => exact iff_of_false nofun fun h => hother h.1
      · next huser =>
        rw [and_iff_right (not_not.mp huser), filePassword]
        split
        · exact iff_of_false nofun (by omega)
        · split
          · exact iff_of_true rfl (by omega)
          · exact iff_of_false nofun (by omega)

/-- The loop leaves its buffers where the search gets to a line with such a password. -/
theorem authenticateLoop_eq_none {fuel : Nat} :
    authenticateLoop md5 username password salt fuel line file = none ↔
      ∃ pre l post, fileLines fuel line file = pre ++ l :: post ∧
        (∀ l' ∈ pre, Passed md5 username password salt l') ∧ LongPassword l username := by
  induction fuel generalizing line file with
  | zero => exact iff_of_false nofun fun ⟨pre, l, post, h, _⟩ => by cases pre <;> cases h
  | succ fuel ih =>
    rw [authenticateLoop, fileLines]
    cases hline : fgets line file with
    | none => exact iff_of_false nofun fun ⟨pre, l, post, h, _⟩ => by cases pre <;> cases h
    | some found =>
      obtain ⟨line', file'⟩ := found
      have hundefined : readLine line' username = .undefined ↔ LongPassword line' username :=
        readLine_eq_undefined
      have hsplit : (∃ pre l post, line' :: fileLines fuel line' file' = pre ++ l :: post ∧
          (∀ l' ∈ pre, Passed md5 username password salt l') ∧ LongPassword l username) ↔
          LongPassword line' username ∨ Passed md5 username password salt line' ∧
            ∃ pre l post, fileLines fuel line' file' = pre ++ l :: post ∧
              (∀ l' ∈ pre, Passed md5 username password salt l') ∧ LongPassword l username := by
        constructor
        · intro ⟨pre, l, post, hlines, hpre, hlong⟩
          cases pre with
          | nil =>
            cases hlines
            exact .inl hlong
          | cons l' pre =>
            obtain ⟨rfl, hrest⟩ := List.cons.inj hlines
            obtain ⟨hfirst, hpre'⟩ := List.forall_mem_cons.mp hpre
            exact .inr ⟨hfirst, pre, l, post, hrest, hpre', hlong⟩
        · intro h
          obtain hlong | ⟨hfirst, pre, l, post, hrest, hpre, hlong⟩ := h
          · exact ⟨[], line', _, rfl, by simp, hlong⟩
          · exact ⟨line' :: pre, l, post, by rw [hrest]; rfl, List.forall_mem_cons.mpr ⟨hfirst, hpre⟩, hlong⟩
      simp only [hsplit, ← hundefined]
      cases hread : readLine line' username with
      | undefined => simp
      | failed => simp [Passed, hread]
      | skip =>
        rw [ih]
        simp [Passed, hread]
      | password filePassword =>
        by_cases heq : expected md5 username filePassword salt = password
        · simp [Passed, hread, heq]
        · simp only [if_neg heq, ih]
          simp [Passed, hread, heq]

theorem userAuthenticate_eq_none {content : Option (List Char)} :
    userAuthenticate md5 buf content c.salt c.line = none ↔ ¬Answerable md5 c content buf := by
  unfold userAuthenticate
  cases hfields : packetFields buf with
  | none =>
    refine iff_of_true rfl fun h => ?_
    exact packetFields_eq_none.mp hfields ⟨h.username, h.password⟩
  | some fields =>
    obtain ⟨username, password⟩ := fields
    have hends : nul ∈ buf.take maxUserPasswdLen ∧
        (nul ∈ (buf.drop ((cstring buf).length + 1)).take maxUserPasswdLen ∨
          maxUserPasswdLen ≤ (buf.drop ((cstring buf).length + 1)).length) := by
      by_contra h
      rw [packetFields_eq_none.mpr h] at hfields
      cases hfields
    cases content with
    | none => exact iff_of_false nofun (not_not_intro ⟨hends.1, hends.2, nofun⟩)
    | some file =>
      change authenticateLoop md5 username password c.salt file.length c.line file = none ↔ _
      rw [authenticateLoop_eq_none]
      constructor
      · intro ⟨pre, l, post, hlines, hpre, hlong⟩ h
        exact h.file file rfl username password hfields pre l post hlines hpre hlong
      · intro h
        by_contra hnone
        refine h ⟨hends.1, hends.2, ?_⟩
        intro content hcontent user pass hboth pre l post hlines hpre hlong
        cases hcontent
        rw [hfields] at hboth
        cases hboth
        exact hnone ⟨pre, l, post, hlines, hpre, hlong⟩

/-- A packet that is accepted has both strings: a digest does not fill the buffer. -/
theorem twoStrings_of_accepted {content : Option (List Char)} {line' : List Char}
    (hmd5 : ∀ a b, (md5 a b).length = md5PasswdLen)
    (h : userAuthenticate md5 buf content salt line = some (true, line')) : TwoStrings buf := by
  obtain ⟨username, filePassword, hfields⟩ := password_of_userAuthenticate h
  unfold packetFields at hfields
  split at hfields
  · next huser =>
    refine ⟨List.mem_of_mem_take huser, ?_⟩
    by_contra hnul
    obtain ⟨password, hcopy, hpair⟩ := Option.map_eq_some_iff.mp hfields
    have htake : nul ∉ (buf.drop ((cstring buf).length + 1)).take maxUserPasswdLen :=
      fun hmem => hnul (List.mem_of_mem_take hmem)
    unfold strncpy at hcopy
    split at hcopy
    · next hfits =>
      have hfull := hfits.resolve_left htake
      have hcstring : cstring ((buf.drop ((cstring buf).length + 1)).take maxUserPasswdLen) =
          (buf.drop ((cstring buf).length + 1)).take maxUserPasswdLen := by
        refine List.takeWhile_eq_self_iff.mpr fun c hc => ?_
        have hne : c ≠ nul := fun heq => htake (heq ▸ hc)
        simpa using hne
      have hlength : password.length = maxUserPasswdLen := by
        rw [← Option.some.inj hcopy, hcstring, List.length_take, Nat.min_eq_left hfull]
      have hdigest := congrArg List.length (Prod.mk.inj hpair).2
      rw [hlength, expected, hmd5] at hdigest
      cases hdigest
    · cases hcopy
  · cases hfields

/-! ### Node ids -/

theorem validBackend_inTable :
    (∀ n ∈ validBackend cfg id, 0 ≤ n ∧ n < cfg.numBackends) ↔
      cfg.rawMode = true ∨ 0 ≤ id ∧ id < cfg.numBackends := by
  unfold validBackend
  split
  · next hraw => exact iff_of_true nofun (.inl hraw)
  · next hraw => simp [hraw]

theorem degenerateBackendSet_inTable :
    (∀ n ∈ degenerateBackendSet cfg id, 0 ≤ n ∧ n < cfg.numBackends) ↔
      cfg.parallelMode = true ∨ cfg.rawMode = true ∨ id < cfg.numBackends ∨
        (maxNumBackends : Int) ≤ id := by
  have hmaster := cfg.realMaster_lt
  have hnum := cfg.numBackends_le
  unfold degenerateBackendSet
  split
  · next hparallel => exact iff_of_true nofun (.inl hparallel)
  · next hparallel =>
    split
    · exact iff_of_true nofun (.inr (.inr (by omega)))
    · next hrange =>
      simp only [List.mem_append, or_imp, forall_and, hparallel, Bool.false_eq_true, false_or]
      by_cases hraw : cfg.rawMode = true
      · refine iff_of_true ?_ (.inl hraw)
        simp only [validBackend, hraw, if_true, true_and]
        split
        · next hreal =>
          simp only [List.not_mem_nil, false_imp_iff, implies_true, List.mem_singleton, forall_eq,
            true_and]
          omega
        · simp
      · simp only [hraw, validBackend, Bool.false_eq_true, false_and, if_false,
          List.mem_singleton, forall_eq, List.not_mem_nil, false_imp_iff, implies_true, and_true,
          false_or]
        omega

/-- What is looked up for a number that is not refused. -/
theorem lookups_inTable (hnumbered : tos ∈ numbered) (hrefuses : refuses cfg world tos id = false) :
    (∀ n ∈ lookups cfg world tos id, 0 ≤ n ∧ n < cfg.numBackends) ↔ NodeInTable cfg world tos id := by
  have hnum := cfg.numBackends_le
  simp only [numbered, List.mem_cons, List.not_mem_nil, or_false] at hnumbered
  obtain rfl | rfl | rfl | rfl | rfl | rfl | rfl | rfl := hnumbered
  · refine iff_of_true ?_ trivial
    have hrange : ¬id < 0 ∧ ¬(cfg.numBackends : Int) ≤ id := by simpa [refuses] using hrefuses
    simp only [lookups, List.mem_singleton, forall_eq]
    omega
  · exact iff_of_true nofun trivial
  · change (∀ n ∈ poolDetachNode cfg world false id, _) ↔ _
    rw [poolDetachNode, if_neg (by simp), degenerateBackendSet_inTable]
    simp [NodeInTable]
  · change (∀ n ∈ poolDetachNode cfg world true id, _) ↔ _
    rw [poolDetachNode]
    by_cases hclosed : world.connectionsClosed = true
    · rw [if_neg (by simp [hclosed]), degenerateBackendSet_inTable]
      simp [NodeInTable, hclosed]
    · rw [if_pos (by simp [hclosed])]
      exact iff_of_true nofun (.inr (.inr (.inl ⟨rfl, by simpa using hclosed⟩)))
  · change (∀ n ∈ sendFailbackRequest cfg id, _) ↔ _
    unfold sendFailbackRequest
    split
    · exact iff_of_true nofun (.inr (by omega))
    · by_cases hraw : cfg.rawMode = true
      · simp only [hraw, if_true, List.mem_singleton, forall_eq, NodeInTable, Bool.true_eq_false,
          false_or]
        omega
      · rw [if_neg hraw]
        exact iff_of_true nofun (.inl (by simpa using hraw))
  · simp [lookups, startRecovery, NodeInTable]
  all_goals
    refine iff_of_true ?_ trivial
    have hchecked : (((0 ≤ id ∧ id < cfg.numBackends) ∧ cfg.masterSlave = true) ∧
        cfg.streaming = true) ∧ ¬id = cfg.primary := by
      simpa [refuses, promotionRefused] using hrefuses
    exact validBackend_inTable.mpr (.inr hchecked.1.1.1)

/-! ### Requests -/

/-- What becomes of a packet is as it has to be: only a packet that the client library would send is
done. -/
def Dealt (cfg : PcpConfig) (p : Packet) (h : Handled) : Prop :=
  h ≠ .undefined ∧
    ∀ nodes, h = .done nodes → (∀ id ∈ nodes, 0 ≤ id ∧ id < cfg.numBackends) ∧ WellFormed p

theorem not_dealt_undefined {p : Packet} : ¬Dealt cfg p .undefined := fun h => h.1 rfl

theorem dealt_closed {p : Packet} : Dealt cfg p .closed := ⟨nofun, nofun⟩

theorem dealt_refused {p : Packet} : Dealt cfg p .refused := ⟨nofun, nofun⟩

theorem dealt_done {p : Packet} {nodes : List Int} : Dealt cfg p (.done nodes) ↔
    (∀ id ∈ nodes, 0 ≤ id ∧ id < cfg.numBackends) ∧ WellFormed p := by
  refine ⟨fun h => h.2 nodes rfl, fun h => ⟨nofun, fun nodes' heq => ?_⟩⟩
  cases heq
  exact h

theorem safe_iff_dealt : Safe md5 cfg r ↔ Dealt cfg r.packet (handle md5 cfg r) := by
  constructor
  · intro h
    refine ⟨h.inside, fun nodes hdone => ⟨h.inTable nodes hdone, ?_⟩⟩
    by_contra hmalformed
    have hrefused := h.refused hmalformed
    rw [hdone] at hrefused
    exact hrefused.elim nofun nofun
  · intro ⟨hinside, hdone⟩
    refine ⟨hinside, fun nodes heq => (hdone nodes heq).1, fun hmalformed => ?_⟩
    cases heq : handle md5 cfg r with
    | undefined => exact absurd heq hinside
    | closed => exact .inl rfl
    | refused => exact .inr rfl
    | done nodes => exact absurd (hdone nodes heq).2 hmalformed

theorem dealt_handleR (hmd5 : ∀ a b, (md5 a b).length = md5PasswdLen) :
    Dealt cfg ⟨'R', payload⟩ (handleR md5 c payload world) ↔
      (c.randomSalt = true → ∃ buf, payload = .bytes buf ∧ Answerable md5 c world.file buf) := by
  unfold handleR
  split
  · next hsalt =>
    rw [forall_prop_of_true hsalt]
    split
    · next buf =>
      cases hauth : userAuthenticate md5 buf world.file c.salt c.line with
      | none =>
        refine iff_of_false not_dealt_undefined fun ⟨_, heq, h⟩ => ?_
        cases heq
        exact userAuthenticate_eq_none.mp hauth h
      | some result =>
        obtain ⟨ok, line⟩ := result
        have hanswer : Answerable md5 c world.file buf := by
          by_contra h
          rw [userAuthenticate_eq_none.mpr h] at hauth
          cases hauth
        refine iff_of_true ?_ ⟨buf, rfl, hanswer⟩
        cases ok with
        | true =>
          have hstrings := twoStrings_of_accepted hmd5 hauth
          exact dealt_done.mpr ⟨by simp, fun _ => hstrings, by simp [numbered], .inl (by simp)⟩
        | false => exact dealt_refused
    · next hbytes =>
      exact iff_of_false not_dealt_undefined fun ⟨buf, heq, _⟩ => hbytes buf heq
  · next hsalt => exact iff_of_true dealt_refused fun h => absurd h hsalt

theorem dealt_handleNumber (hnumbered : tos ∈ numbered) :
    Dealt cfg ⟨tos, payload⟩ (handleNumber cfg tos payload world) ↔
      ∃ buf id, payload = .bytes buf ∧ atoi buf = some id ∧
        (refuses cfg world tos id = true ∨ nul ∈ buf ∧ NodeInTable cfg world tos id) := by
  have hR : tos ≠ 'R' := by
    rintro rfl
    exact absurd hnumbered (by decide)
  have hcommand : tos ∈ commands := by
    simp only [numbered, List.mem_cons, List.not_mem_nil, or_false] at hnumbered
    obtain rfl | rfl | rfl | rfl | rfl | rfl | rfl | rfl := hnumbered <;> decide
  unfold handleNumber
  cases payload with
  | failed => exact iff_of_false not_dealt_undefined fun ⟨_, _, heq, _⟩ => nomatch heq
  | null => exact iff_of_false not_dealt_undefined fun ⟨_, _, heq, _⟩ => nomatch heq
  | bytes buf =>
    cases hatoi : atoi buf with
    | none =>
      refine iff_of_false ?_ fun ⟨_, _, heq, h, _⟩ => ?_
      · simp only [hatoi]
        exact not_dealt_undefined
      · cases heq
        rw [hatoi] at h
        cases h
    | some id =>
      have hone : (∃ buf' id', Payload.bytes buf = .bytes buf' ∧ atoi buf' = some id' ∧
          (refuses cfg world tos id' = true ∨ nul ∈ buf' ∧ NodeInTable cfg world tos id')) ↔
          (refuses cfg world tos id = true ∨ nul ∈ buf ∧ NodeInTable cfg world tos id) := by
        constructor
        · intro ⟨buf', id', heq, h, hrest⟩
          cases heq
          rw [hatoi] at h
          cases h
          exact hrest
        · exact fun h => ⟨buf, id, rfl, hatoi, h⟩
      rw [hone]
      simp only [hatoi]
      cases hrefuses : refuses cfg world tos id with
      | true => exact iff_of_true dealt_refused (.inl rfl)
      | false =>
        rw [if_neg Bool.false_ne_true, dealt_done, lookups_inTable hnumbered hrefuses]
        have hformed : WellFormed ⟨tos, .bytes buf⟩ ↔ nul ∈ buf := by
          simp [WellFormed, hR, hnumbered, hcommand]
        rw [hformed, and_comm]
        simp

/-- What is not admitted is closed. -/
theorem handle_of_not_admitted (h : ¬Admitted r) : handle md5 cfg r = .closed := by
  unfold handle
  by_cases hfailed : r.packet.payload = .failed
  · exact if_pos hfailed
  · have hout : (!r.child.authenticated && (r.packet.tos != 'R' && r.packet.tos != 'M')) = true := by
      simp only [Admitted, not_and, not_or] at h
      obtain ⟨hauth, hR, hM⟩ := h hfailed
      simp [hauth, hR, hM]
    simp only [if_neg hfailed, hout, if_true]

theorem handle_of_admitted (h : Admitted r) : handle md5 cfg r =
    if r.packet.tos = 'R' then handleR md5 r.child r.packet.payload r.world
    else if r.packet.tos = 'M' then .done []
    else if r.packet.tos ∈ numbered then handleNumber cfg r.packet.tos r.packet.payload r.world
    else if r.packet.tos = 'T' then if r.packet.payload = .null then .undefined else .done []
    else if r.packet.tos ∈ commands then .done []
    else .closed := by
  obtain ⟨hpayload, hadmitted⟩ := h
  have hin : (!r.child.authenticated && (r.packet.tos != 'R' && r.packet.tos != 'M')) = false := by
    obtain hauth | hR | hM := hadmitted
    · simp [hauth]
    · simp [hR]
    · simp [hM]
  unfold handle
  simp only [if_neg hpayload, hin, Bool.false_eq_true, if_false]

/-- The commands that do not look at their payload. -/
theorem wellFormed_of_plain {p : Packet} (hpayload : p.payload ≠ .failed)
    (htos : p.tos ∈ ['M', 'L', 'N', 'S', 'B', 'F', 'X']) : WellFormed p := by
  unfold WellFormed
  cases hbody : p.payload with
  | failed => exact absurd hbody hpayload
  | null => exact htos
  | bytes buf =>
    simp only [List.mem_cons, List.not_mem_nil, or_false] at htos
    obtain htos | htos | htos | htos | htos | htos | htos := htos <;>
      simp [htos, numbered, commands]

theorem plain_of_command (h : tos ∈ commands) (hnumbered : tos ∉ numbered) (hT : tos ≠ 'T') :
    tos ∈ ['M', 'L', 'N', 'S', 'B', 'F', 'X'] := by
  simp only [commands, List.mem_cons, List.not_mem_nil, or_false] at h
  obtain rfl | rfl | rfl | rfl | rfl | rfl | rfl | rfl | rfl | rfl | rfl | rfl | rfl | rfl := h <;>
    first
    | decide
    | exact absurd (by decide) hnumbered
    | exact absurd rfl hT

theorem safe_iff_meets (hmd5 : ∀ a b, (md5 a b).length = md5PasswdLen) :
    Safe md5 cfg r ↔ (Admitted r → Meets md5 cfg r) := by
  rw [safe_iff_dealt]
  by_cases hadmitted : Admitted r
  · rw [forall_prop_of_true hadmitted, handle_of_admitted hadmitted]
    obtain ⟨child, ⟨tos, payload⟩, world⟩ := r
    have hpayload : payload ≠ .failed := hadmitted.1
    dsimp only
    by_cases hR : tos = 'R'
    · subst hR
      rw [if_pos rfl, dealt_handleR hmd5]
      exact ⟨fun h => ⟨fun _ => h, fun hn => absurd hn (by simp [numbered]), nofun⟩,
        fun h => h.answer rfl⟩
    rw [if_neg hR]
    by_cases hnumbered : tos ∈ numbered
    · have hM : tos ≠ 'M' := fun h => absurd (h ▸ hnumbered) (by decide)
      have hT : tos ≠ 'T' := fun h => absurd (h ▸ hnumbered) (by decide)
      rw [if_neg hM, if_pos hnumbered, dealt_handleNumber hnumbered]
      exact ⟨fun h => ⟨fun h' => absurd h' hR, fun _ => h, fun h' => absurd h' hT⟩,
        fun h => h.number hnumbered⟩
    have hrest : Meets md5 cfg ⟨child, ⟨tos, payload⟩, world⟩ ↔ (tos = 'T' → payload ≠ .null) :=
      ⟨fun h => h.mode, fun h => ⟨fun h' => absurd h' hR, fun h' => absurd h' hnumbered, h⟩⟩
    rw [hrest, if_neg hnumbered]
    by_cases hT : tos = 'T'
    · subst hT
      cases payload with
      | failed => exact absurd rfl hpayload
      | null => exact iff_of_false not_dealt_undefined fun h => h rfl rfl
      | bytes buf =>
        refine iff_of_true (dealt_done.mpr ⟨by simp, ?_⟩) nofun
        simp [WellFormed, numbered, commands]
    refine iff_of_true ?_ fun h => absurd h hT
    rw [if_neg hT]
    split
    · next hM => exact dealt_done.mpr ⟨by simp, wellFormed_of_plain hpayload (by simp [hM])⟩
    · split
      · next hcommand =>
        exact dealt_done.mpr ⟨by simp,
          wellFormed_of_plain hpayload (plain_of_command hcommand hnumbered hT)⟩
      · exact dealt_closed
  · rw [forall_prop_of_false hadmitted, handle_of_not_admitted hadmitted]
    exact iff_of_true dealt_closed trivial

end

/-- Whatever is sent on a connection, in whatever state of the child: the requests are safe if and only
if each meets the condition in the state in which it is processed. -/
theorem requests_safe_iff (md5 : Md5Encrypt) (hmd5 : ∀ a b, (md5 a b).length = md5PasswdLen)
    (cfg : PcpConfig) (worlds : List PcpWorld) (c : PcpChild) (stream : List UInt8) :
    (∀ r ∈ requests md5 cfg worlds c stream, Safe md5 cfg r) ↔
      ∀ r ∈ requests md5 cfg worlds c stream, Admitted r → Meets md5 cfg r :=
  forall₂_congr fun _ _ => safe_iff_meets hmd5

/-! ### Concrete requests -/

def sampleConfig : PcpConfig where
  numBackends := 2
  replication := true
  parallelMode := false
  masterSlave := false
  streaming := false
  realMaster := 0
  primary := 0
  realMaster_lt := by decide
  numBackends_le := by decide

def sampleWorld : PcpWorld := ⟨PcpChild.sampleAnswers, [4711], true⟩

/-- The digests of the sample, and another one for what it does not have. -/
def sampleDigest : Md5Encrypt := fun password salt =>
  if (PcpChild.sampleMd5 password salt).length = md5PasswdLen then PcpChild.sampleMd5 password salt
  else List.replicate md5PasswdLen '0'

theorem length_sampleDigest (password salt : List Char) :
    (sampleDigest password salt).length = md5PasswdLen := by
  unfold sampleDigest
  split
  · assumption
  · exact List.length_replicate ..

/-- A client that has authenticated detaches node 1. -/
def detaching : PcpChild := PcpChild.init.accept.setAuthenticated true

theorem requests_safe_detach :
    (∀ a b, (sampleDigest a b).length = md5PasswdLen) ∧
      ∀ r ∈ requests sampleDigest sampleConfig [sampleWorld] detaching [68, 0, 0, 0, 6, 49, 0],
        Safe sampleDigest sampleConfig r := by
  refine ⟨length_sampleDigest,
    (requests_safe_iff sampleDigest length_sampleDigest sampleConfig _ _ _).mpr ?_⟩
  have hrequests : requests sampleDigest sampleConfig [sampleWorld] detaching [68, 0, 0, 0, 6, 49, 0] =
      [⟨detaching, ⟨'D', .bytes ['1', nul]⟩, sampleWorld⟩] := by rfl
  rw [hrequests]
  refine List.forall_mem_singleton.mpr fun _ => ⟨nofun, fun _ => ?_, nofun⟩
  exact ⟨_, 1, rfl, by decide, .inr ⟨by decide, .inr (.inr (.inr (.inl (by decide))))⟩⟩

/-- Without having authenticated, a client asks for a salt and answers it with an empty packet: the
payload is read through a null pointer. -/
theorem not_requests_safe : ¬∀ r ∈ requests sampleDigest sampleConfig [sampleWorld, sampleWorld]
    PcpChild.init.accept [77, 0, 0, 0, 4, 82, 0, 0, 0, 4], Safe sampleDigest sampleConfig r := by
  intro h
  have hrequests : requests sampleDigest sampleConfig [sampleWorld, sampleWorld] PcpChild.init.accept
      [77, 0, 0, 0, 4, 82, 0, 0, 0, 4] =
        [⟨PcpChild.init.accept, ⟨'M', .null⟩, sampleWorld⟩,
         ⟨PcpChild.init.accept.processM 0 sampleWorld.toPcpAnswers, ⟨'R', .null⟩, sampleWorld⟩] := by rfl
  rw [hrequests] at h
  exact (h _ (List.mem_cons_of_mem _ List.mem_cons_self)).inside rfl

end PgPool.Pcp
