import PgPool.Auth.PoolPasswd
import PgPool.Hba.FirstMatch

/-!
# Who gets past `pool_hba.conf`

`ClientAuthentication`, which a child calls before it connects to the nodes.  It comes back for a client that
may go on, and ends the child for every other one.
-/

namespace PgPool.Hba

open Passwd (UserName StoredPasswd poolGetPasswd fileOf lookup poolGetPasswd_fileOf)

/-- `ClientAuthentication` comes back, or there is an error message and `child_exit(2)`. -/
inductive AuthOutcome where
  | goesOn
  | exits (message : Bytes)
  deriving DecidableEq, Repr

/-- What a call depends on besides the files: the numeric name of the client's host, and whether PAM lets
the client in. -/
structure AuthEnv where
  hostinfo : Bytes
  pamAccepts : Bool

/-- The message for `uaReject`. -/
def rejectMessage (b : Build) (conn : Connection) (env : AuthEnv) : Bytes :=
  str "no pool_hba.conf entry for host \"" ++ env.hostinfo ++ str "\", user \"" ++ conn.username ++
    str "\", database \"" ++ conn.database ++
    if b.useSsl then str "\", SSL " ++ (if conn.ssl then str "on" else str "off") else str "\""

/-- `auth_failed`. -/
def authFailed (name : String) (conn : Connection) : Bytes :=
  str name ++ str " authentication with pgpool failed for user \"" ++ conn.username ++ str "\""

/-- `CheckMd5Auth`: whether there is an entry; the password is asked for later. -/
def checkMd5Auth (poolPasswd username : Bytes) : Bool := (poolGetPasswd poolPasswd username).isSome

/-- `ClientAuthentication`. -/
def clientAuthentication (b : Build) (conn : Connection) (env : AuthEnv) (lines : List HbaLine)
    (poolPasswd : Bytes) : AuthOutcome :=
  match checkHba b conn lines with
  | none => .exits (str "missing or erroneous pool_hba.conf file")
  | some .reject => .exits (rejectMessage b conn env)
  | some .md5 =>
    if checkMd5Auth poolPasswd conn.username then .goesOn else .exits (authFailed "\"MD5\"" conn)
  | some .pam => if env.pamAccepts then .goesOn else .exits (authFailed "PAM" conn)
  | some .trust => .goesOn

/-- The method of the first record that matches lets the client go on. -/
def LetsOn (env : AuthEnv) (entry : Option StoredPasswd) : UserAuth → Prop
  | .trust => True
  | .reject => False
  | .md5 => entry.isSome = true
  | .pam => env.pamAccepts = true

/-- A refusal that names the user. -/
def Refused (conn : Connection) (o : AuthOutcome) : Prop :=
  ∃ message, o = .exits message ∧ conn.username <:+: message

theorem username_rejectMessage (b : Build) (conn : Connection) (env : AuthEnv) :
    conn.username <:+: rejectMessage b conn env := by
  refine ⟨str "no pool_hba.conf entry for host \"" ++ env.hostinfo ++ str "\", user \"",
    str "\", database \"" ++ conn.database ++
      (if b.useSsl then str "\", SSL " ++ (if conn.ssl then str "on" else str "off") else str "\""), ?_⟩
  simp only [rejectMessage, List.append_assoc]

theorem username_authFailed (name : String) (conn : Connection) :
    conn.username <:+: authFailed name conn :=
  ⟨str name ++ str " authentication with pgpool failed for user \"", str "\"", rfl⟩

section

variable {b : Build} {conn : Connection} {env : AuthEnv} {lines : List HbaLine}
  {es : List (UserName × StoredPasswd)} {auth : UserAuth}

variable (env) in
/-- The method decides. -/
theorem clientAuthentication_method (hauth : checkHba b conn lines = some auth)
    (hshort : ∀ e ∈ es, e.1.Short) (u : UserName) (hu : u.bytes = conn.username) :
    (clientAuthentication b conn env lines (fileOf es) = .goesOn ∧ LetsOn env (lookup u es) auth) ∨
      (Refused conn (clientAuthentication b conn env lines (fileOf es)) ∧
        ¬ LetsOn env (lookup u es) auth) := by
  have hmd5 : checkMd5Auth (fileOf es) conn.username = (lookup u es).isSome := by
    rw [checkMd5Auth, ← hu, poolGetPasswd_fileOf hshort, Option.isSome_map]
  unfold clientAuthentication
  rw [hauth]
  cases auth with
  | trust => exact .inl ⟨rfl, trivial⟩
  | reject => exact .inr ⟨⟨_, rfl, username_rejectMessage b conn env⟩, id⟩
  | md5 =>
    simp only [hmd5, LetsOn]
    cases (lookup u es).isSome with
    | true => exact .inl ⟨rfl, rfl⟩
    | false => exact .inr ⟨⟨_, rfl, username_authFailed _ conn⟩, Bool.false_ne_true⟩
  | pam =>
    simp only [LetsOn]
    cases env.pamAccepts with
    | true => exact .inl ⟨rfl, rfl⟩
    | false => exact .inr ⟨⟨_, rfl, username_authFailed _ conn⟩, Bool.false_ne_true⟩

/-- With files that are read as they are meant, a client goes on precisely if the first record that matches
trusts it, or asks for a password that is stored; every other client is told its user's name and refused. -/
theorem clientAuthentication_iff (hnum : NumericHost b.getaddrinfo) (incFile : Bytes → Bytes) {file : Bytes}
    (hclean : CleanFile conn file) (hread : ∀ record ∈ records file, readRecord b record ≠ none)
    (hshort : ∀ e ∈ es, e.1.Short) (u : UserName) (hu : u.bytes = conn.username) (env : AuthEnv) :
    let outcome := clientAuthentication b conn env (tokenizeFile incFile file) (fileOf es)
    (outcome = .goesOn ↔ LetsOn env (lookup u es) (firstMethod b conn (records file))) ∧
      (outcome ≠ .goesOn → Refused conn outcome) := by
  have hfirst : FirstMatch b conn (records file) (checkHba b conn (tokenizeFile incFile file)) :=
    checkHba_meant hnum (tokenizeFile_eq incFile hclean.lines)
      (fun record hrecord => of_decide_eq_true (List.mem_filter.mp hrecord).2)
      (fun record hrecord f hf => cleanField_of_mem hclean.lines hrecord hf) hclean.names
  cases hauth : checkHba b conn (tokenizeFile incFile file) with
  | none =>
    rw [hauth] at hfirst
    obtain ⟨before, line, after, heq, hline, -⟩ := hfirst
    exact absurd hline (hread line (heq ▸ List.mem_append_right _ List.mem_cons_self))
  | some auth =>
    rw [hauth] at hfirst
    have hmethod : auth = firstMethod b conn (records file) := hfirst
    subst hmethod
    obtain ⟨hgoes, hlets⟩ | ⟨hrefused, hnot⟩ := clientAuthentication_method env hauth hshort u hu
    · exact ⟨iff_of_true hgoes hlets, fun h => absurd hgoes h⟩
    · have hends : clientAuthentication b conn env (tokenizeFile incFile file) (fileOf es) ≠ .goesOn := by
        obtain ⟨message, heq, -⟩ := hrefused
        rw [heq]
        exact AuthOutcome.noConfusion
      exact ⟨iff_of_false hends hnot, fun _ => hrefused⟩

end

/-! The second record of the sample asks bob for a password, and there is none. -/

theorem plain_bob : ∀ c ∈ str "bob", c ≠ 0 ∧ c ≠ 10 ∧ c ≠ 58 := by
  have hall : (str "bob").all (fun c => c ≠ 0 ∧ c ≠ 10 ∧ c ≠ 58) = true := by decide
  simpa using hall

def bobUser : UserName := ⟨str "bob", by decide, by decide, plain_bob⟩

def numericHost : AuthEnv := ⟨str "10.1.2.3", true⟩

theorem clientAuthentication_bob :
    Refused bob (clientAuthentication sampleBuild bob numericHost (tokenizeFile id sampleFile) (fileOf [])) := by
  have hclean : CleanFile bob sampleFile := ⟨by decide +kernel, by decide +kernel⟩
  have hread : ∀ record ∈ records sampleFile, readRecord sampleBuild record ≠ none := by decide +kernel
  have hshort : ∀ e ∈ ([] : List (UserName × StoredPasswd)), e.1.Short := fun e he => absurd he List.not_mem_nil
  have h := clientAuthentication_iff numericHost_resolves id hclean hread hshort bobUser rfl numericHost
  have hmethod : firstMethod sampleBuild bob (records sampleFile) = .md5 := by decide +kernel
  refine h.2 fun hgoes => ?_
  have hlets := h.1.1 hgoes
  rw [hmethod] at hlets
  exact Bool.false_ne_true hlets

end PgPool.Hba
