import PgPool.Auth.Md5
import PgPool.Pcp.Child

/-!
# Logging in

`pcp_authorize()` of the client against the pcp child: the child sends a salt, the client answers with its
name and the digest of its password and the salt, and the child looks for a line of the password file that
gives the same answer.
-/

namespace PgPool.Pcp

/-! ## The client -/

/-- `pool_md5_encrypt`, with the characters as bytes. -/
def poolMd5Encrypt : Md5Encrypt := fun passwd salt =>
  (Md5.poolMd5Hash ((cstring passwd ++ salt).map fun c => c.toNat.toUInt8)).getD []

/-- The arguments of `pcp_authorize`, two C strings.  The packet has room for the name, and the digest is
defined on the password. -/
structure Credentials where
  username : List Char
  password : List Char
  nul_username : nul ∉ username
  nul_password : nul ∉ password
  short_username : username.length < maxUserPasswdLen
  short_password : password.length < 2 ^ 32 - 136

namespace Credentials

variable (who : Credentials)

/-- `md5` of `pcp_authorize`: the digest of the password itself. -/
def md5 : List Char := poolMd5Encrypt who.password []

/-- `encrypt_buf` of `pcp_authorize`. -/
def encryptBuf (salt : List Char) : List Char :=
  poolMd5Encrypt (poolMd5Encrypt who.md5 who.username) salt

/-- The body of the packet `R`. -/
def packet (salt : List Char) : List Char :=
  who.username ++ [nul] ++ (who.encryptBuf salt ++ [nul])

end Credentials

/-- What `pcp_authorize` makes of the reply: 0, or -1. -/
def authorizeResult (tos : Char) (buf : List Char) : Int :=
  if tos = 'r' ∧ cstring buf = "AuthenticationOK".toList then 0 else -1

/-- The reply to the packet `R`. -/
def replyR (authenticated : Bool) : Char × List Char :=
  ('r', if authenticated then "AuthenticationOK".toList ++ [nul]
    else "AuthenticationFailed".toList ++ [nul] ++
      "username and/or password do not match".toList ++ [nul])

/-! ## The password file -/

/-- A line with the name of a user and a digest. -/
structure ConfEntry where
  username : List Char
  digest : List Char
  plain_username : ∀ c ∈ username, c ≠ ':' ∧ c ≠ '\n' ∧ c ≠ nul
  not_comment : username.head? ≠ some '#'
  plain_digest : ∀ c ∈ digest, c ≠ '\n' ∧ c ≠ nul
  short_digest : digest.length ≤ md5PasswdLen
  short : username.length + 1 + digest.length ≤ maxUserPasswdLen

/-- A comment behind its `#`, which `fgets` reads in one piece. -/
structure Comment where
  text : List Char
  one_line : '\n' ∉ text
  short : text.length + 2 < maxFileLineLen

/-- A line of `pcp.conf`. -/
inductive ConfLine where
  | blank
  | comment (comment : Comment)
  | entry (entry : ConfEntry)

namespace ConfLine

/-- A line without its end. -/
def text : ConfLine → List Char
  | blank => []
  | comment c => '#' :: c.text
  | entry e => e.username ++ ':' :: e.digest

/-- The file. -/
def file (conf : List ConfLine) : List Char := conf.flatMap fun l => l.text ++ ['\n']

/-- The line has the user, and with its digest gives the answer to the salt. -/
def Admits (md5 : Md5Encrypt) (username password salt : List Char) : ConfLine → Prop
  | entry e => e.username = username ∧ expected md5 username e.digest salt = password
  | _ => False

instance (md5 : Md5Encrypt) (username password salt : List Char) (l : ConfLine) :
    Decidable (l.Admits md5 username password salt) :=
  match l with
  | entry _ => inferInstanceAs (Decidable (_ ∧ _))
  | blank | comment _ => inferInstanceAs (Decidable False)

theorem one_line (l : ConfLine) : '\n' ∉ l.text := by
  cases l with
  | blank => exact List.not_mem_nil
  | comment c => simpa [text] using c.one_line
  | entry e =>
    simp only [text, List.mem_append, List.mem_cons, not_or]
    exact ⟨fun h => (e.plain_username _ h).2.1 rfl, by decide, fun h => (e.plain_digest _ h).1 rfl⟩

theorem short (l : ConfLine) : l.text.length < maxFileLineLen - 1 := by
  cases l with
  | blank => decide
  | comment c =>
    have := c.short
    simp only [text, List.length_cons, maxFileLineLen] at this ⊢
    omega
  | entry e =>
    have := e.short
    simp only [text, List.length_append, List.length_cons, maxFileLineLen, maxUserPasswdLen] at this ⊢
    omega

end ConfLine

/-! ## The child -/

theorem takeLine_append {text : List Char} (hline : '\n' ∉ text) (rest : List Char) :
    ∀ {n : Nat}, text.length < n → takeLine n (text ++ '\n' :: rest) = text ++ ['\n'] := by
  induction text with
  | nil =>
    intro n hn
    cases n with
    | zero => simp at hn
    | succ n => simp [takeLine]
  | cons c text ih =>
    intro n hn
    simp only [List.mem_cons, not_or] at hline
    cases n with
    | zero => simp at hn
    | succ n =>
      simp only [List.length_cons, Nat.add_lt_add_iff_right] at hn
      simp only [List.cons_append, takeLine, if_neg (Ne.symm hline.1), ih hline.2 hn]

/-- `fgets` reads the next line of the file. -/
theorem fgets_line (l : ConfLine) (line rest : List Char) :
    ∃ junk, fgets line (l.text ++ '\n' :: rest) = some (l.text ++ '\n' :: nul :: junk, rest) := by
  refine ⟨line.drop (l.text.length + 1 + 1), ?_⟩
  have hne : l.text ++ '\n' :: rest ≠ [] := by simp
  rw [fgets, if_neg hne]
  simp only [takeLine_append l.one_line rest l.short]
  simp

/-- The user name of an entry ends at its colon. -/
theorem findIdx?_colon (e : ConfEntry) (rest : List Char) :
    ((e.username ++ ':' :: rest).take (maxUserPasswdLen + 1)).findIdx? (· == ':') =
      some e.username.length := by
  have hshort := e.short
  have hroom : maxUserPasswdLen + 1 - e.username.length =
      maxUserPasswdLen - e.username.length + 1 := by omega
  have hname : e.username.findIdx? (· == ':') = none := by
    simpa [List.findIdx?_eq_none_iff] using fun c hc => (e.plain_username c hc).1
  rw [List.take_append, List.take_of_length_le (by omega), hroom, List.take_succ_cons,
    List.findIdx?_append, hname]
  simp [List.findIdx?_cons]

theorem cstring_append {s : List Char} (h : nul ∉ s) (rest : List Char) :
    cstring (s ++ nul :: rest) = s := by
  have hall : ∀ c ∈ s, (c != nul) = true := fun c hc => by simpa using fun heq : c = nul => h (heq ▸ hc)
  rw [cstring, List.takeWhile_append_of_pos hall]
  simp

theorem cstring_of_not_mem {s : List Char} (h : nul ∉ s) : cstring s = s := by
  have hall : ∀ c ∈ s, (c != nul) = true := fun c hc => by simpa using fun heq : c = nul => h (heq ▸ hc)
  have htake : (s ++ []).takeWhile (· != nul) = s ++ ([] : List Char).takeWhile (· != nul) :=
    List.takeWhile_append_of_pos hall
  simpa [cstring] using htake

theorem filePassword_entry (e : ConfEntry) (junk : List Char) :
    filePassword (e.username ++ ':' :: (e.digest ++ '\n' :: nul :: junk)) e.username.length e.username =
      .password e.digest := by
  have hshort := e.short
  have hdigest := e.short_digest
  have hdrop : (e.username ++ ':' :: (e.digest ++ '\n' :: nul :: junk)).drop (e.username.length + 1) =
      e.digest ++ '\n' :: nul :: junk := by
    rw [← List.drop_drop, List.drop_left]
    rfl
  have hlen : (e.digest ++ '\n' :: nul :: junk).takeWhile (fun c => c != '\n' && c != nul) =
      e.digest := by
    have hall : ∀ c ∈ e.digest, (c != '\n' && c != nul) = true := fun c hc => by
      simpa using e.plain_digest c hc
    rw [List.takeWhile_append_of_pos hall]
    simp
  have hnul : nul ∉ e.digest := fun h => (e.plain_digest nul h).2 rfl
  simp only [filePassword, hdrop, hlen, List.take_left, cstring_of_not_mem hnul]
  rw [if_neg (by omega), if_neg (by omega)]

/-- A line that is not of the user is skipped, and one that is gives the digest. -/
theorem readLine_entry (e : ConfEntry) (junk username : List Char) :
    readLine ((ConfLine.entry e).text ++ '\n' :: nul :: junk) username =
      if e.username = username then .password e.digest else .skip := by
  have hnul : nul ∉ e.username := fun h => (e.plain_username nul h).2.2 rfl
  have hhead : ¬ ((e.username ++ ':' :: (e.digest ++ '\n' :: nul :: junk)).head? = some '\n' ∨
      (e.username ++ ':' :: (e.digest ++ '\n' :: nul :: junk)).head? = some '#') := by
    cases hu : e.username with
    | nil => simp
    | cons c cs =>
      have hnl := (e.plain_username c (by simp [hu])).2.1
      have hcomment := e.not_comment
      rw [hu] at hcomment
      simp only [List.cons_append, List.head?_cons, Option.some.injEq] at hcomment ⊢
      exact not_or.2 ⟨hnl, fun heq => hcomment (congrArg some heq)⟩
  simp only [ConfLine.text, List.append_assoc, List.cons_append]
  rw [readLine, if_neg hhead, findIdx?_colon]
  simp only [List.take_left, cstring_of_not_mem hnul, filePassword_entry]
  by_cases hu : e.username = username
  · rw [if_neg (not_not.2 hu.symm), if_pos hu]
  · rw [if_pos (Ne.symm hu), if_neg hu]

variable {md5 : Md5Encrypt} {username password salt : List Char}

/-- One pass of the loop: a line that admits the user ends it. -/
theorem authenticateLoop_line (l : ConfLine) (fuel : Nat) (line rest : List Char) :
    ∃ line', authenticateLoop md5 username password salt (fuel + 1) line (l.text ++ '\n' :: rest) =
      if l.Admits md5 username password salt then some (true, line')
      else authenticateLoop md5 username password salt fuel line' rest := by
  obtain ⟨junk, hread⟩ := fgets_line l line rest
  refine ⟨l.text ++ '\n' :: nul :: junk, ?_⟩
  rw [authenticateLoop, hread]
  cases l with
  | blank | comment c => rfl
  | entry e =>
    simp only [readLine_entry, ConfLine.Admits]
    by_cases hu : e.username = username
    · simp only [hu, if_true, true_and]
    · simp only [hu, if_false, false_and]

/-- The loop over the file says whether a line admits the user. -/
theorem authenticateLoop_file (conf : List ConfLine) :
    ∀ (fuel : Nat) (line : List Char), conf.length ≤ fuel →
      ∃ line', authenticateLoop md5 username password salt fuel line (ConfLine.file conf) =
        some (decide (∃ l ∈ conf, l.Admits md5 username password salt), line') := by
  induction conf with
  | nil =>
    intro fuel line _
    refine ⟨line, ?_⟩
    cases fuel with
    | zero => rfl
    | succ fuel => rfl
  | cons l conf ih =>
    intro fuel line hfuel
    cases fuel with
    | zero => simp at hfuel
    | succ fuel =>
      have hfile : ConfLine.file (l :: conf) = l.text ++ '\n' :: ConfLine.file conf := by
        simp [ConfLine.file]
      obtain ⟨next, hpass⟩ := @authenticateLoop_line md5 username password salt l fuel line
        (ConfLine.file conf)
      rw [hfile, hpass]
      by_cases hl : l.Admits md5 username password salt
      · exact ⟨next, by simp [hl]⟩
      · obtain ⟨line', hrest⟩ := ih fuel next (by simpa using hfuel)
        exact ⟨line', by simp [hl, hrest]⟩

theorem length_le_file (conf : List ConfLine) : conf.length ≤ (ConfLine.file conf).length := by
  induction conf with
  | nil => exact Nat.le_refl _
  | cons l conf ih =>
    simp only [ConfLine.file, List.flatMap_cons, List.length_append, List.length_cons] at ih ⊢
    omega

/-! ## The packet -/

theorem length_poolMd5Encrypt {passwd salt : List Char}
    (hlen : (cstring passwd ++ salt).length < 2 ^ 32 - 136) :
    (poolMd5Encrypt passwd salt).length = md5PasswdLen := by
  rw [poolMd5Encrypt, Md5.poolMd5Hash_eq, if_pos (by simp at hlen ⊢; omega), Option.getD_some,
    Md5.length_bytesToHex, Md5.length_digest]
  rfl

theorem plain_poolMd5Encrypt {passwd salt : List Char} {c : Char} (h : c ∈ poolMd5Encrypt passwd salt) :
    c ≠ '\n' ∧ c ≠ nul := by
  have hall : ("0123456789abcdef".toList.all fun c => c ≠ '\n' ∧ c ≠ nul) = true := by decide
  have hdigits : ∀ c ∈ "0123456789abcdef".toList, c ≠ '\n' ∧ c ≠ nul := by simpa using hall
  rw [poolMd5Encrypt, Md5.poolMd5Hash_eq] at h
  split at h
  · exact hdigits c (Md5.mem_bytesToHex h)
  · simp at h

theorem nul_not_mem_poolMd5Encrypt (passwd salt : List Char) : nul ∉ poolMd5Encrypt passwd salt :=
  fun h => (plain_poolMd5Encrypt h).2 rfl

namespace Credentials

variable (who : Credentials)

theorem length_md5 : who.md5.length = md5PasswdLen := by
  refine length_poolMd5Encrypt ?_
  rw [cstring_of_not_mem who.nul_password, List.append_nil]
  exact who.short_password

theorem plain_md5 {c : Char} (h : c ∈ who.md5) : c ≠ '\n' ∧ c ≠ nul := plain_poolMd5Encrypt h

/-- The digest of a digest with a name or a salt behind it. -/
theorem length_encryptBuf {salt : List Char} (hsalt : salt.length = 4) :
    (who.encryptBuf salt).length = md5PasswdLen := by
  have hname := who.short_username
  have hinner : (poolMd5Encrypt who.md5 who.username).length = md5PasswdLen := by
    refine length_poolMd5Encrypt ?_
    have hmd5 : cstring who.md5 = who.md5 := cstring_of_not_mem (nul_not_mem_poolMd5Encrypt _ _)
    rw [hmd5, List.length_append, length_md5]
    simp only [md5PasswdLen, maxUserPasswdLen] at hname ⊢
    omega
  refine length_poolMd5Encrypt ?_
  rw [cstring_of_not_mem (nul_not_mem_poolMd5Encrypt _ _), List.length_append, hinner, hsalt]
  decide

/-- The child finds in the packet what the client has put there. -/
theorem packetFields_packet {salt : List Char} (hsalt : salt.length = 4) :
    packetFields (who.packet salt) = some (who.username, who.encryptBuf salt) := by
  have hname := who.short_username
  have hlen := who.length_encryptBuf hsalt
  have hpacket : who.packet salt = who.username ++ nul :: (who.encryptBuf salt ++ [nul]) := by
    simp [packet]
  have hcstring : cstring (who.packet salt) = who.username := by
    rw [hpacket, cstring_append who.nul_username]
  have hnul : nul ∈ (who.packet salt).take maxUserPasswdLen := by
    rw [hpacket, List.take_append, List.mem_append]
    right
    rw [show maxUserPasswdLen - who.username.length = maxUserPasswdLen - who.username.length - 1 + 1 by
      omega, List.take_succ_cons]
    exact List.mem_cons_self
  have hrest : (who.packet salt).drop (who.username.length + 1) = who.encryptBuf salt ++ [nul] := by
    rw [hpacket, ← List.drop_drop, List.drop_left]
    rfl
  have hwhole : (who.encryptBuf salt ++ [nul]).take maxUserPasswdLen = who.encryptBuf salt ++ [nul] := by
    refine List.take_of_length_le ?_
    rw [List.length_append, hlen]
    decide
  have hanswer : cstring (who.encryptBuf salt ++ [nul]) = who.encryptBuf salt :=
    cstring_append (nul_not_mem_poolMd5Encrypt _ _) []
  rw [packetFields, if_pos hnul, hcstring, hrest, strncpy, hwhole, if_pos (by simp), hanswer]
  rfl

end Credentials

/-! ## The login -/

/-- A line of the file is of the user, and its digest answers the salt as the client's does. -/
def Accepted (conf : List ConfLine) (who : Credentials) (salt : List Char) : Prop :=
  ∃ l ∈ conf, l.Admits poolMd5Encrypt who.username (who.encryptBuf salt) salt

instance (conf : List ConfLine) (who : Credentials) (salt : List Char) :
    Decidable (Accepted conf who salt) :=
  inferInstanceAs (Decidable (∃ l ∈ conf, _))

/-- The line that `pg_md5` makes for a client. -/
def Credentials.entry (who : Credentials) (hplain : ∀ c ∈ who.username, c ≠ ':' ∧ c ≠ '\n')
    (hcomment : who.username.head? ≠ some '#')
    (hshort : who.username.length + 1 + md5PasswdLen ≤ maxUserPasswdLen) : ConfEntry where
  username := who.username
  digest := who.md5
  plain_username c hc := ⟨(hplain c hc).1, (hplain c hc).2, fun h => who.nul_username (h ▸ hc)⟩
  not_comment := hcomment
  plain_digest _ hc := who.plain_md5 hc
  short_digest := Nat.le_of_eq who.length_md5
  short := who.length_md5 ▸ hshort

/-- Who has the digest of the password in the file is admitted, whatever the salt. -/
theorem accepted_of_mem {conf : List ConfLine} {who : Credentials} {e : ConfEntry}
    (hmem : .entry e ∈ conf) (hname : e.username = who.username) (hdigest : e.digest = who.md5)
    (salt : List Char) : Accepted conf who salt := by
  refine ⟨.entry e, hmem, hname, ?_⟩
  rw [expected, hdigest]
  rfl

theorem userAuthenticate_packet (conf : List ConfLine) (who : Credentials) {salt : List Char}
    (hsalt : salt.length = 4) (line : List Char) :
    ∃ line', userAuthenticate poolMd5Encrypt (who.packet salt) (some (ConfLine.file conf)) salt line =
      some (decide (Accepted conf who salt), line') := by
  simp only [userAuthenticate, who.packetFields_packet hsalt]
  exact authenticateLoop_file conf _ line (length_le_file conf)

/-- The client asks for a salt and answers it. -/
def login (who : Credentials) (m r : PcpAnswers) : List PcpEvent :=
  [.packet 'M' none m, .packet 'R' (some (who.packet m.newSalt)) r]

theorem step_packetM {c : PcpChild} {conn : Nat} {m : PcpAnswers} (hopen : c.frontend = some conn)
    (hm : m.survives = true) (md5 : Md5Encrypt) :
    PcpChild.step md5 c (.packet 'M' none m) = some (c.processM conn m) := by
  simp [PcpChild.step, hopen, hm, PcpChild.processPacket]

/-- The packet `R` after a salt. -/
theorem step_packetR {c : PcpChild} {conn : Nat} {r : PcpAnswers} {buf line : List Char} {ok : Bool}
    (hopen : c.frontend = some conn) (hsent : c.randomSalt = true) (hr : r.survives = true)
    (hauth : userAuthenticate md5 buf r.file c.salt c.line = some (ok, line)) :
    ∃ c', PcpChild.step md5 c (.packet 'R' (some buf) r) = some c' ∧ c'.authenticated = ok ∧
      c'.frontend = if ok then some conn else none := by
  have hstep : PcpChild.step md5 c (.packet 'R' (some buf) r) = some (PcpChild.answerR
      { c with
        authenticated := ok
        line := line
        log := .verified conn c.salts ok :: c.log } conn) := by
    simp [PcpChild.step, hopen, hr, PcpChild.processPacket, PcpChild.processR, hsent, hauth]
  refine ⟨_, hstep, ?_⟩
  cases ok with
  | true => simp [PcpChild.answerR, hsent, hopen]
  | false => simp [PcpChild.answerR, PcpChild.close]

/-- **Main result.** On any open connection a login ends with the client admitted or the connection
closed: the first exactly where a line of the file admits the client, and both sides agree on it. -/
theorem login_iff (conf : List ConfLine) (who : Credentials) {c : PcpChild} {conn : Nat}
    {m r : PcpAnswers} (hopen : c.frontend = some conn) (hm : m.survives = true)
    (hr : r.survives = true) (hsalt : m.newSalt.length = 4)
    (hfile : r.file = some (ConfLine.file conf)) :
    ∃ c', Transition.runAll (PcpChild.step poolMd5Encrypt) (login who m r) c = some c' ∧
      (c'.authenticated = true ↔ Accepted conf who m.newSalt) ∧
      (c'.frontend = some conn ↔ Accepted conf who m.newSalt) ∧
      (authorizeResult (replyR c'.authenticated).1 (replyR c'.authenticated).2 = 0 ↔
        Accepted conf who m.newSalt) := by
  obtain ⟨line, hauth⟩ := userAuthenticate_packet conf who hsalt c.line
  have hreply : ∀ b, authorizeResult (replyR b).1 (replyR b).2 = 0 ↔ b = true := by decide
  rw [← hfile] at hauth
  obtain ⟨c', hstep, hok, hconn⟩ := step_packetR (c := c.processM conn m) hopen rfl hr hauth
  refine ⟨c', ?_, ?_, ?_, ?_⟩
  · simp only [login, Transition.runAll, step_packetM hopen hm, hstep]
  · rw [hok, decide_eq_true_iff]
  · rw [hconn]
    by_cases hadm : Accepted conf who m.newSalt
    · simp [hadm]
    · simp [hadm]
  · rw [hreply, hok, decide_eq_true_iff]

theorem nul_not_mem_admin : nul ∉ "postgres".toList ∧ nul ∉ "secret".toList := by decide

theorem length_admin : "postgres".toList.length < maxUserPasswdLen ∧
    "secret".toList.length < 2 ^ 32 - 136 := by decide

def admin : Credentials where
  username := "postgres".toList
  password := "secret".toList
  nul_username := nul_not_mem_admin.1
  nul_password := nul_not_mem_admin.2
  short_username := length_admin.1
  short_password := length_admin.2

theorem plain_admin : (∀ c ∈ admin.username, c ≠ ':' ∧ c ≠ '\n') ∧ admin.username.head? ≠ some '#' ∧
    admin.username.length + 1 + md5PasswdLen ≤ maxUserPasswdLen := by
  have hall : (admin.username.all fun c => c ≠ ':' ∧ c ≠ '\n') = true := by decide
  exact ⟨by simpa using hall, by decide, by decide⟩

theorem plain_usage : '\n' ∉ " USERID:MD5PASSWD".toList ∧
    " USERID:MD5PASSWD".toList.length + 2 < maxFileLineLen := by decide

/-- A password file with a comment and one user. -/
def adminConf : List ConfLine :=
  [.comment ⟨" USERID:MD5PASSWD".toList, plain_usage.1, plain_usage.2⟩, .blank,
    .entry (admin.entry plain_admin.1 plain_admin.2.1 plain_admin.2.2)]

theorem login_admin :
    ∃ c', Transition.runAll (PcpChild.step poolMd5Encrypt)
        (login admin ⟨"1234".toList, none, true⟩ ⟨[], some (ConfLine.file adminConf), true⟩)
        PcpChild.init.accept = some c' ∧ c'.authenticated = true := by
  obtain ⟨c', hrun, hok, -⟩ := @login_iff adminConf admin PcpChild.init.accept 0
    ⟨"1234".toList, none, true⟩ ⟨[], some (ConfLine.file adminConf), true⟩
    rfl rfl rfl rfl rfl
  have hmem : .entry (admin.entry plain_admin.1 plain_admin.2.1 plain_admin.2.2) ∈ adminConf :=
    List.mem_cons_of_mem _ (List.mem_cons_of_mem _ List.mem_cons_self)
  exact ⟨c', hrun, hok.2 (accepted_of_mem hmem rfl rfl _)⟩

end PgPool.Pcp
