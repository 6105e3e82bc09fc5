import Mathlib.Data.List.Induction
import Mathlib.Data.List.TakeWhile

/-!
# The file `pool_passwd`

`pool_create_passwdent` and `pool_get_passwd` of `pool_passwd.c`.  The file has a line `name:password` for
each user, and is scanned character by character from its beginning in every call.
-/

namespace PgPool.Passwd

/-! ## Users and passwords -/

/-- The name of a role. -/
@[ext] structure UserName where
  bytes : List UInt8
  nonempty : bytes ≠ []
  length_le : bytes.length ≤ 63
  plain : ∀ c ∈ bytes, c ≠ 0 ∧ c ≠ 10 ∧ c ≠ 58
  deriving DecidableEq

/-- `POOL_PASSWD_LEN`. -/
def poolPasswdLen : Nat := 35

def isHexDigit (c : UInt8) : Bool := (48 ≤ c && c ≤ 57) || (97 ≤ c && c ≤ 102)

/-- A password as it is stored: `md5` and 32 hexadecimal digits. -/
@[ext] structure StoredPasswd where
  bytes : List UInt8
  length : bytes.length = poolPasswdLen
  md5 : bytes.take 3 = [109, 100, 53]
  digits : ∀ c ∈ bytes.drop 3, isHexDigit c
  deriving DecidableEq

/-! ## The source -/

/-- The loop that reads a name, of at most `size` characters; what follows, and whether the end of the
file has been met. -/
def readName : Nat → List UInt8 → List UInt8 × List UInt8 × Bool
  | 0, rest => ([], rest, false)
  | _ + 1, [] => ([], [], true)
  | size + 1, c :: rest =>
    if c = 58 then ([], rest, false)
    else
      let (name, rest, eof) := readName size rest
      (c :: name, rest, eof)

/-- Skip password. -/
def skipPassword : List UInt8 → List UInt8 × Bool
  | [] => ([], true)
  | c :: rest => if c = 10 then (rest, false) else skipPassword rest

/-- `fputc` of some characters at the position in front of `rest`. -/
def overwrite (text rest : List UInt8) : List UInt8 := text ++ rest.drop text.length

/-- `strcmp(username, name) == 0`, where the name ends at its first null character. -/
def sameName (username name : List UInt8) : Bool := username == name.takeWhile (· != 0)

/-- The loop of `pool_create_passwdent`, with the characters in front of the position, and the new
entry behind it; `none`: the terminator of a name is written behind the buffer of 32 bytes. -/
def createLoop (username passwd : List UInt8) : Nat → List UInt8 → List UInt8 → Bool → Option (List UInt8)
  | 0, _, _, _ => none
  | fuel + 1, front, rest, eof =>
    if eof then some (front ++ overwrite (username ++ 58 :: (passwd ++ [10])) rest)
    else
      let (name, rest', _) := readName 32 rest
      if name.length = 32 then none
      else if sameName username name then
        some (front ++ rest.take (rest.length - rest'.length) ++ overwrite (passwd ++ [10]) rest')
      else
        let (rest'', eof) := skipPassword rest'
        createLoop username passwd fuel (front ++ rest.take (rest.length - rest''.length)) rest'' eof

/-- `pool_create_passwdent`: the file that results. -/
def poolCreatePasswdent (file username passwd : List UInt8) : Option (List UInt8) :=
  if passwd.length ≠ poolPasswdLen then some file
  else createLoop username passwd (file.length + 2) [] file false

/-- The loop that reads a password. -/
def readPassword : Nat → List UInt8 → List UInt8
  | 0, _ => []
  | _ + 1, [] => []
  | size + 1, c :: rest => if c = 10 then [] else c :: readPassword size rest

/-- The loop of `pool_get_passwd`, whose buffer has 33 bytes. -/
def getLoop (username : List UInt8) : Nat → List UInt8 → Bool → Option (List UInt8)
  | 0, _, _ => none
  | fuel + 1, rest, eof =>
    if eof then none
    else
      let (name, rest, _) := readName 32 rest
      if sameName username name then some (readPassword poolPasswdLen rest)
      else
        let (rest, eof) := skipPassword rest
        getLoop username fuel rest eof

/-- `pool_get_passwd`. -/
def poolGetPasswd (file username : List UInt8) : Option (List UInt8) :=
  getLoop username (file.length + 2) file false

/-! ## Runs -/

inductive Call where
  | create (username : UserName) (passwd : StoredPasswd)
  | get (username : UserName)

/-- The file after a call. -/
def Call.file (file : List UInt8) : Call → Option (List UInt8)
  | .create username passwd => poolCreatePasswdent file username.bytes passwd.bytes
  | .get _ => some file

/-- The file after some calls, from the empty one that `pool_init_pool_passwd` creates. -/
def run (calls : List Call) : Option (List UInt8) := calls.foldlM Call.file []

/-- The password last stored for a user. -/
def lastStored (calls : List Call) (username : UserName) : Option StoredPasswd :=
  calls.foldl (fun last call => match call with
    | .create username' passwd => if username' = username then some passwd else last
    | .get _ => last) none

/-- The buffers are kept to, and after each of the calls every user has the password last stored, and no
other one. -/
def Faithful (calls : List Call) : Prop :=
  ∀ before after, calls = before ++ after → ∃ file, run before = some file ∧
    ∀ username, poolGetPasswd file username.bytes = (lastStored before username).map StoredPasswd.bytes

/-! ## Lines -/

section

variable {name rest text : List UInt8} {size : Nat}

theorem readName_append (h : 58 ∉ name) (hlen : name.length < size) :
    readName size (name ++ 58 :: rest) = (name, rest, false) := by
  induction name generalizing size with
  | nil =>
    obtain ⟨k, rfl⟩ := Nat.exists_eq_add_one_of_ne_zero (Nat.ne_of_gt hlen)
    rfl
  | cons c name ih =>
    rw [List.mem_cons, not_or] at h
    obtain ⟨k, rfl⟩ := Nat.exists_eq_add_one_of_ne_zero (Nat.ne_of_gt (Nat.lt_of_le_of_lt (Nat.zero_le _) hlen))
    rw [List.cons_append, readName, if_neg (Ne.symm h.1),
      ih h.2 (by rw [List.length_cons] at hlen; omega)]

/-- Of a name that is too long for the buffer the rest is not read. -/
theorem readName_long (h : 58 ∉ name) (hlen : size ≤ name.length) :
    readName size (name ++ rest) = (name.take size, name.drop size ++ rest, false) := by
  induction name generalizing size with
  | nil =>
    obtain rfl := Nat.le_zero.mp hlen
    simp [readName]
  | cons c name ih =>
    rw [List.mem_cons, not_or] at h
    cases size with
    | zero => simp [readName]
    | succ size =>
      rw [List.cons_append, readName, if_neg (Ne.symm h.1), ih h.2 (Nat.le_of_succ_le_succ hlen)]
      rfl

theorem skipPassword_append (h : 10 ∉ text) : skipPassword (text ++ 10 :: rest) = (rest, false) := by
  induction text with
  | nil => rfl
  | cons c text ih =>
    rw [List.mem_cons, not_or] at h
    rw [List.cons_append, skipPassword, if_neg (Ne.symm h.1), ih h.2]

theorem readPassword_append (h : 10 ∉ text) : readPassword text.length (text ++ rest) = text := by
  induction text with
  | nil => rfl
  | cons c text ih =>
    rw [List.mem_cons, not_or] at h
    rw [List.length_cons, List.cons_append, readPassword, if_neg (Ne.symm h.1), ih h.2]

theorem sameName_iff {username : List UInt8} (h : 0 ∉ name) : sameName username name ↔ username = name := by
  have hall : name.takeWhile (· != 0) = name :=
    List.takeWhile_eq_self_iff.mpr fun c hc => by
      have hne : c ≠ 0 := fun heq => h (heq ▸ hc)
      simpa using hne
  unfold sameName
  rw [hall, beq_iff_eq]

end

namespace UserName

variable (u : UserName)

theorem no_nul : 0 ∉ u.bytes := fun h => (u.plain 0 h).1 rfl

theorem no_newline : 10 ∉ u.bytes := fun h => (u.plain 10 h).2.1 rfl

theorem no_colon : 58 ∉ u.bytes := fun h => (u.plain 58 h).2.2 rfl

/-- The buffer of `pool_create_passwdent` has room for the name and its terminator. -/
def Short : Prop := u.bytes.length < 32

end UserName

/-- The first three characters and the digits are not `c`. -/
theorem StoredPasswd.not_mem (p : StoredPasswd) {c : UInt8} (h : c ∉ [109, 100, 53])
    (hdigit : isHexDigit c = false) : c ∉ p.bytes := by
  intro hmem
  rw [← List.take_append_drop 3 p.bytes, List.mem_append, p.md5] at hmem
  obtain hfirst | hlast := hmem
  · exact h hfirst
  · have := p.digits c hlast
    rw [hdigit] at this
    exact Bool.noConfusion this

theorem StoredPasswd.no_newline (p : StoredPasswd) : 10 ∉ p.bytes := p.not_mem (by decide) (by decide)

theorem StoredPasswd.no_colon (p : StoredPasswd) : 58 ∉ p.bytes := p.not_mem (by decide) (by decide)

/-- The line of a user. -/
def line (e : UserName × StoredPasswd) : List UInt8 := e.1.bytes ++ 58 :: (e.2.bytes ++ [10])

def fileOf (es : List (UserName × StoredPasswd)) : List UInt8 := es.flatMap line

/-- Put the password in the place of the one that is there, or behind all others. -/
def store (u : UserName) (p : StoredPasswd) :
    List (UserName × StoredPasswd) → List (UserName × StoredPasswd)
  | [] => [(u, p)]
  | e :: es => if e.1 = u then (u, p) :: es else e :: store u p es

theorem short_of_mem_store {u : UserName} {p : StoredPasswd} {es : List (UserName × StoredPasswd)}
    (hu : u.Short) (hes : ∀ e ∈ es, e.1.Short) : ∀ e ∈ store u p es, e.1.Short := by
  induction es with
  | nil =>
    intro e he
    rw [store, List.mem_singleton] at he
    exact he ▸ hu
  | cons e' es ih =>
    obtain ⟨he', hes⟩ := List.forall_mem_cons.mp hes
    unfold store
    split
    · exact List.forall_mem_cons.mpr ⟨hu, hes⟩
    · exact List.forall_mem_cons.mpr ⟨he', ih hes⟩

/-- The password in the first line of a user. -/
def lookup (u : UserName) : List (UserName × StoredPasswd) → Option StoredPasswd
  | [] => none
  | e :: es => if e.1 = u then some e.2 else lookup u es

theorem lookup_store (u v : UserName) (p : StoredPasswd) (es : List (UserName × StoredPasswd)) :
    lookup v (store u p es) = if u = v then some p else lookup v es := by
  induction es with
  | nil => rfl
  | cons e es ih =>
    unfold store
    by_cases he : e.1 = u
    · subst he
      rw [if_pos rfl, lookup, lookup]
      by_cases hv : e.1 = v
      · rw [if_pos hv, if_pos hv]
      · rw [if_neg hv, if_neg hv, if_neg hv]
    · rw [if_neg he, lookup, lookup, ih]
      by_cases hv : e.1 = v
      · have hne : u ≠ v := fun heq => he (hv.trans heq.symm)
        rw [if_pos hv, if_neg hne, if_pos hv]
      · rw [if_neg hv, if_neg hv]

/-! ## Scanning the file -/

section

variable {u v : UserName} {p : StoredPasswd} {e : UserName × StoredPasswd}
  {es : List (UserName × StoredPasswd)} {front rest : List UInt8} {fuel : Nat}

theorem line_append : line e ++ rest = e.1.bytes ++ 58 :: (e.2.bytes ++ 10 :: rest) := by
  simp [line]

theorem length_line (e : UserName × StoredPasswd) : (line e).length = e.1.bytes.length + 37 := by
  have hp := e.2.length
  simp only [line, List.length_append, List.length_cons, List.length_nil, hp, poolPasswdLen]

theorem fileOf_cons : fileOf (e :: es) = line e ++ fileOf es := rfl

theorem take_line : (line e ++ rest).take ((line e ++ rest).length - rest.length) = line e := by
  rw [List.length_append, Nat.add_sub_cancel, List.take_left]

theorem createLoop_of_ne (hshort : e.1.Short) (hne : e.1 ≠ u) :
    createLoop u.bytes p.bytes (fuel + 1) front (line e ++ rest) false =
      createLoop u.bytes p.bytes fuel (front ++ line e) rest false := by
  have hname : ¬ sameName u.bytes e.1.bytes = true := fun h =>
    hne (UserName.ext ((sameName_iff e.1.no_nul).mp h).symm)
  have hlen : ¬ e.1.bytes.length = 32 := Nat.ne_of_lt hshort
  rw [createLoop, if_neg Bool.false_ne_true, line_append, readName_append e.1.no_colon hshort]
  simp only [if_neg hlen, if_neg hname, skipPassword_append e.2.no_newline]
  rw [← line_append, take_line]

theorem createLoop_of_eq (hshort : u.Short) (q : StoredPasswd) :
    createLoop u.bytes p.bytes (fuel + 1) front (line (u, q) ++ rest) false =
      some (front ++ (line (u, p) ++ rest)) := by
  have hname : sameName u.bytes u.bytes = true := (sameName_iff u.no_nul).mpr rfl
  have hlen : ¬ u.bytes.length = 32 := Nat.ne_of_lt hshort
  have hread : readName 32 (u.bytes ++ 58 :: (q.bytes ++ 10 :: rest)) = _ :=
    readName_append u.no_colon hshort
  have hp := p.length
  have hq := q.length
  have htake : (u.bytes ++ 58 :: (q.bytes ++ 10 :: rest)).take
      ((u.bytes ++ 58 :: (q.bytes ++ 10 :: rest)).length - (q.bytes ++ 10 :: rest).length) =
        u.bytes ++ [58] := by
    rw [List.append_cons u.bytes 58, List.length_append, Nat.add_sub_cancel, List.take_left]
  have hover : overwrite (p.bytes ++ [10]) (q.bytes ++ 10 :: rest) = p.bytes ++ 10 :: rest := by
    unfold overwrite
    rw [List.append_cons q.bytes 10, List.drop_left' (by simp [hp, hq])]
    simp
  rw [createLoop, if_neg Bool.false_ne_true, line_append, hread]
  simp only [if_neg hlen, hname, if_true, htake, hover]
  simp [line]

theorem createLoop_nil (u : UserName) :
    createLoop u.bytes p.bytes (fuel + 2) front [] false = some (front ++ line (u, p)) := by
  have hname : ¬ sameName u.bytes [] = true := fun h =>
    u.nonempty ((sameName_iff (List.not_mem_nil)).mp h)
  rw [createLoop, if_neg Bool.false_ne_true]
  simp only [readName, List.length_nil, if_neg hname, skipPassword]
  rw [if_neg (by omega), createLoop, if_pos rfl]
  simp [overwrite, line]

/-- Where all names in the file are short, the password is stored. -/
theorem createLoop_fileOf (hshort : ∀ e ∈ es, e.1.Short) (hfuel : es.length + 2 ≤ fuel) :
    createLoop u.bytes p.bytes fuel front (fileOf es) false = some (front ++ fileOf (store u p es)) := by
  induction es generalizing front fuel with
  | nil =>
    obtain ⟨k, rfl⟩ := Nat.exists_eq_add_of_le hfuel
    rw [Nat.add_comm]
    simpa [fileOf, store] using createLoop_nil u
  | cons e es ih =>
    obtain ⟨he, hes⟩ := List.forall_mem_cons.mp hshort
    rw [List.length_cons] at hfuel
    obtain ⟨k, rfl⟩ := Nat.exists_eq_add_one_of_ne_zero (show fuel ≠ 0 by omega)
    rw [fileOf_cons, store]
    by_cases hu : e.1 = u
    · subst hu
      rw [if_pos rfl, fileOf_cons]
      exact createLoop_of_eq he e.2
    · rw [if_neg hu, createLoop_of_ne he hu, ih hes (by omega), fileOf_cons, List.append_assoc]

theorem length_le_fileOf (es : List (UserName × StoredPasswd)) : es.length ≤ (fileOf es).length := by
  induction es with
  | nil => exact Nat.le_refl _
  | cons e es ih =>
    rw [fileOf_cons, List.length_append, length_line, List.length_cons]
    omega

theorem poolCreatePasswdent_fileOf (hshort : ∀ e ∈ es, e.1.Short) :
    poolCreatePasswdent (fileOf es) u.bytes p.bytes = some (fileOf (store u p es)) := by
  have hlen := length_le_fileOf es
  unfold poolCreatePasswdent
  rw [if_neg (not_not_intro p.length), createLoop_fileOf hshort (by omega), List.nil_append]

theorem getLoop_of_ne (hshort : e.1.Short) (hne : e.1 ≠ u) :
    getLoop u.bytes (fuel + 1) (line e ++ rest) false = getLoop u.bytes fuel rest false := by
  have hname : ¬ sameName u.bytes e.1.bytes = true := fun h =>
    hne (UserName.ext ((sameName_iff e.1.no_nul).mp h).symm)
  rw [getLoop, if_neg Bool.false_ne_true, line_append, readName_append e.1.no_colon hshort]
  simp only [if_neg hname, skipPassword_append e.2.no_newline]

theorem getLoop_of_eq (hshort : u.Short) :
    getLoop u.bytes (fuel + 1) (line (u, p) ++ rest) false = some p.bytes := by
  have hname : sameName u.bytes u.bytes = true := (sameName_iff u.no_nul).mpr rfl
  have hread : readPassword poolPasswdLen (p.bytes ++ 10 :: rest) = p.bytes := by
    rw [← p.length]
    exact readPassword_append p.no_newline
  rw [getLoop, if_neg Bool.false_ne_true, line_append, readName_append u.no_colon hshort]
  simp only [hname, if_true, hread]

theorem getLoop_nil (u : UserName) : getLoop u.bytes (fuel + 2) [] false = none := by
  have hname : ¬ sameName u.bytes [] = true := fun h =>
    u.nonempty ((sameName_iff (List.not_mem_nil)).mp h)
  rw [getLoop, if_neg Bool.false_ne_true]
  simp only [readName, if_neg hname, skipPassword]
  rw [getLoop, if_pos rfl]

/-- Where all names in the file are short, each user's password is found. -/
theorem getLoop_fileOf (hshort : ∀ e ∈ es, e.1.Short) (hfuel : es.length + 2 ≤ fuel) :
    getLoop u.bytes fuel (fileOf es) false = (lookup u es).map StoredPasswd.bytes := by
  induction es generalizing fuel with
  | nil =>
    obtain ⟨k, rfl⟩ := Nat.exists_eq_add_of_le hfuel
    rw [Nat.add_comm]
    exact getLoop_nil u
  | cons e es ih =>
    obtain ⟨he, hes⟩ := List.forall_mem_cons.mp hshort
    rw [List.length_cons] at hfuel
    obtain ⟨k, rfl⟩ := Nat.exists_eq_add_one_of_ne_zero (show fuel ≠ 0 by omega)
    rw [fileOf_cons, lookup]
    by_cases hu : e.1 = u
    · subst hu
      rw [if_pos rfl]
      exact getLoop_of_eq he
    · rw [if_neg hu, getLoop_of_ne he hu, ih hes (by omega)]

theorem poolGetPasswd_fileOf (hshort : ∀ e ∈ es, e.1.Short) (u : UserName) :
    poolGetPasswd (fileOf es) u.bytes = (lookup u es).map StoredPasswd.bytes := by
  have hlen := length_le_fileOf es
  exact getLoop_fileOf hshort (by omega)

/-! ## Long names -/

/-- The line of a user with a long name, at the end of the file, is not read as it should be: either the
colon and the password are taken for the password, or the name is not recognized. -/
theorem getLoop_long (hlong : ¬ u.Short) :
    getLoop u.bytes (fuel + 3) (line (u, p)) false ≠ some p.bytes := by
  have hle : 32 ≤ u.bytes.length := Nat.le_of_not_lt hlong
  have hread : readName 32 (u.bytes ++ 58 :: (p.bytes ++ [10])) = _ := readName_long u.no_colon hle
  rw [getLoop, if_neg Bool.false_ne_true, line, hread]
  by_cases hexact : u.bytes.length = 32
  · have htake : u.bytes.take 32 = u.bytes := List.take_of_length_le (by omega)
    have hdrop : u.bytes.drop 32 = [] := List.drop_eq_nil_of_le (by omega)
    have hname : sameName u.bytes u.bytes = true := (sameName_iff u.no_nul).mpr rfl
    simp only [htake, hdrop, hname, if_true, List.nil_append]
    intro heq
    refine p.no_colon ?_
    rw [← Option.some.inj heq]
    exact List.mem_cons_self
  · have hname : ¬ sameName u.bytes (u.bytes.take 32) = true := fun h => by
      have hsame := (sameName_iff fun hmem => u.no_nul (List.mem_of_mem_take hmem)).mp h
      have hlen := congrArg List.length hsame
      rw [List.length_take] at hlen
      omega
    have hline : 10 ∉ u.bytes.drop 32 ++ 58 :: p.bytes := by
      intro hmem
      obtain hname | hrest := List.mem_append.mp hmem
      · exact u.no_newline (List.mem_of_mem_drop hname)
      · obtain heq | hp := List.mem_cons.mp hrest
        · exact absurd heq (by decide)
        · exact p.no_newline hp
    have hskip : skipPassword (u.bytes.drop 32 ++ 58 :: p.bytes ++ [10]) = _ := skipPassword_append hline
    rw [List.append_assoc, List.cons_append] at hskip
    simp only [if_neg hname, hskip, getLoop_nil u]
    exact nofun

theorem getLoop_append (hshort : ∀ e ∈ es, e.1.Short) (hne : ∀ e ∈ es, e.1 ≠ u) :
    getLoop u.bytes (es.length + fuel) (fileOf es ++ rest) false = getLoop u.bytes fuel rest false := by
  induction es with
  | nil => rw [List.length_nil, Nat.zero_add]; rfl
  | cons e es ih =>
    obtain ⟨he, hes⟩ := List.forall_mem_cons.mp hshort
    obtain ⟨hu, hus⟩ := List.forall_mem_cons.mp hne
    rw [List.length_cons, Nat.succ_add, fileOf_cons, List.append_assoc, getLoop_of_ne he hu, ih hes hus]

theorem store_of_ne (hne : ∀ e ∈ es, e.1 ≠ u) : store u p es = es ++ [(u, p)] := by
  induction es with
  | nil => rfl
  | cons e es ih =>
    obtain ⟨hu, hus⟩ := List.forall_mem_cons.mp hne
    rw [store, if_neg hu, ih hus, List.cons_append]

/-- A user whose name is too long does not get the password that has been stored. -/
theorem poolGetPasswd_long (hshort : ∀ e ∈ es, e.1.Short) (hlong : ¬ u.Short) :
    poolGetPasswd (fileOf (store u p es)) u.bytes ≠ some p.bytes := by
  have hne : ∀ e ∈ es, e.1 ≠ u := fun e he heq => hlong (heq ▸ hshort e he)
  have hfile : fileOf (es ++ [(u, p)]) = fileOf es ++ line (u, p) := by
    unfold fileOf
    rw [List.flatMap_append, List.flatMap_singleton]
  have hlen := length_le_fileOf es
  have hline : (line (u, p)).length = u.bytes.length + 37 := length_line (u, p)
  obtain ⟨k, hk⟩ : ∃ k, (fileOf es ++ line (u, p)).length + 2 = es.length + (k + 3) := by
    rw [List.length_append, hline]
    exact ⟨(fileOf es).length - es.length + u.bytes.length + 36, by omega⟩
  rw [store_of_ne hne, hfile]
  unfold poolGetPasswd
  rw [hk, getLoop_append hshort hne]
  exact getLoop_long hlong

end

/-! ## Runs -/

/-- No user with a long name is stored. -/
def AllShort (calls : List Call) : Prop := ∀ u p, Call.create u p ∈ calls → u.Short

theorem run_concat (calls : List Call) (c : Call) :
    run (calls ++ [c]) = (run calls).bind fun file => c.file file := by
  unfold run
  rw [List.foldlM_append]
  cases calls.foldlM Call.file [] <;> simp

/-- The file has a line for each user that has been stored, with the password last stored. -/
theorem run_of_allShort {calls : List Call} (h : AllShort calls) :
    ∃ es, run calls = some (fileOf es) ∧ (∀ e ∈ es, e.1.Short) ∧
      ∀ u, lookup u es = lastStored calls u := by
  induction calls using List.reverseRecOn with
  | nil => exact ⟨[], rfl, fun e he => absurd he List.not_mem_nil, fun u => rfl⟩
  | append_singleton calls c ih =>
    obtain ⟨es, hrun, hshort, hlast⟩ := ih fun u p hmem => h u p (List.mem_append_left _ hmem)
    cases c with
    | get v =>
      refine ⟨es, ?_, hshort, fun u => ?_⟩
      · rw [run_concat, hrun]
        rfl
      · rw [hlast]
        simp [lastStored]
    | create v p =>
      have hv : v.Short := h v p (by simp)
      refine ⟨store v p es, ?_, ?_, fun u => ?_⟩
      · rw [run_concat, hrun]
        exact poolCreatePasswdent_fileOf hshort
      · intro e he
        exact short_of_mem_store hv hshort e he
      · rw [lookup_store, hlast]
        simp [lastStored]

/-- As long as the calls are faithful, no user with a long name has been stored: the first one would not
be found. -/
theorem allShort_of_faithful {calls : List Call} (h : Faithful calls) :
    ∀ before after, calls = before ++ after → AllShort before := by
  intro before
  induction before using List.reverseRecOn with
  | nil => exact fun _ _ u p hmem => absurd hmem List.not_mem_nil
  | append_singleton before c ih =>
    intro after hcalls
    rw [List.append_assoc] at hcalls
    have hbefore := ih _ hcalls
    obtain ⟨es, hrun, hshort, -⟩ := run_of_allShort hbefore
    intro u p hmem
    obtain hold | hnew := List.mem_append.mp hmem
    · exact hbefore u p hold
    · obtain rfl := List.mem_singleton.mp hnew
      by_contra hlong
      obtain ⟨file, hfile, hget⟩ := h (before ++ [.create u p]) after (by rw [hcalls, List.append_assoc])
      rw [run_concat, hrun] at hfile
      obtain rfl := Option.some.inj ((poolCreatePasswdent_fileOf hshort).symm.trans hfile)
      refine poolGetPasswd_long hshort hlong ((hget u).trans ?_)
      simp [lastStored]

theorem faithful_of_allShort {calls : List Call} (h : AllShort calls) : Faithful calls := by
  intro before after hcalls
  have hbefore : AllShort before := fun u p hmem => h u p (hcalls ▸ List.mem_append_left _ hmem)
  obtain ⟨es, hrun, hshort, hlast⟩ := run_of_allShort hbefore
  refine ⟨fileOf es, hrun, fun u => ?_⟩
  rw [poolGetPasswd_fileOf hshort, hlast]

/-- The file is a map from users to passwords precisely if no name of 32 bytes or more is stored. -/
theorem poolPasswd_faithful_iff (calls : List Call) :
    Faithful calls ↔ ∀ u p, Call.create u p ∈ calls → u.bytes.length < 32 :=
  ⟨fun h => allShort_of_faithful h calls [] (List.append_nil _).symm, faithful_of_allShort⟩

/-- A name of 32 bytes. -/
def longUser : UserName where
  bytes := List.replicate 32 97
  nonempty := by decide
  length_le := by decide
  plain := by
    intro c hc
    rw [List.eq_of_mem_replicate hc]
    decide

/-- `md5` and 32 zeros. -/
def zeroPasswd : StoredPasswd where
  bytes := [109, 100, 53] ++ List.replicate 32 48
  length := by decide
  md5 := by decide
  digits := by
    intro c hc
    have hzero : c ∈ List.replicate 32 48 := hc
    rw [List.eq_of_mem_replicate hzero]
    decide

set_option maxRecDepth 4000 in
/-- The colon and the password without its last digit are returned for the password; and when the file is
scanned by `pool_create_passwdent`, the name is written beyond its buffer. -/
theorem not_faithful_longUser :
    ¬ (∀ calls, Faithful calls) ∧
    (run [.create longUser zeroPasswd]).bind (fun file => poolGetPasswd file longUser.bytes) =
      some (58 :: zeroPasswd.bytes.take 34) ∧
    run [.create longUser zeroPasswd, .create longUser zeroPasswd] = none := by
  refine ⟨fun h => ?_, by decide, by decide⟩
  have hshort := allShort_of_faithful (h [.create longUser zeroPasswd]) [.create longUser zeroPasswd] [] rfl
    longUser zeroPasswd List.mem_cons_self
  exact absurd hshort (by unfold UserName.Short; decide)

end PgPool.Passwd
