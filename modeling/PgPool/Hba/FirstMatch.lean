import PgPool.Hba.Check
import PgPool.Hba.Words

/-!
# The first record that matches

What the records of `pool_hba.conf` mean: each has a type, perhaps a range of addresses, two lists of names
and a method, and the method of the first one that matches a connection is taken.  `check_hba` finds it in
the files that the tokenizer reads as they are meant.
-/

namespace PgPool.Hba

/-- A record that is well formed.  Without a range it is for local connections; `ssl` is what it asks of a
connection. -/
structure Record where
  ssl : Option Bool
  range : Option (SockAddr × SockAddr)
  db : List Word
  user : List Word
  auth : UserAuth

/-- The text of a field that is no list. -/
def plain : List Word → Option Bytes
  | [w] => some w.text
  | _ => none

/-- A method, and perhaps an argument, at the end of a record. -/
def readAuth (b : Build) : List (List Word) → Option UserAuth
  | [] => none
  | method :: more =>
    if 1 < more.length then none
    else if plain method = some (str "trust") then some .trust
    else if plain method = some (str "reject") then some .reject
    else if plain method = some (str "md5") then some .md5
    else if b.usePam ∧ plain method = some (str "pam") then some .pam
    else none

/-- An address with the number of its significant bits, or with a mask in the next field; and the fields
behind. -/
def readRange (b : Build) : List (List Word) → Option ((SockAddr × SockAddr) × List (List Word))
  | [] => none
  | field :: more => do
    let text ← plain field
    let host := text.takeWhile (· != 47)
    let addr ← b.getaddrinfo host
    if text.contains 47 then
      let mask ← cidrMask (text.drop (host.length + 1)) addr
      some ((addr, mask), more)
    else
      match more with
      | [] => none
      | field :: more =>
        let mask ← (plain field).bind b.getaddrinfo
        if sameFamily addr mask then some ((addr, mask), more) else none

/-- What the types for TCP/IP ask of a connection. -/
def readType (b : Build) (type : List Word) : Option (Option Bool) :=
  if plain type = some (str "host") then some none
  else if plain type = some (str "hostssl") then if b.useSsl then some (some true) else none
  else if plain type = some (str "hostnossl") then some (some false)
  else none

/-- The record that some fields are; `none`: it is malformed. -/
def readRecord (b : Build) : List (List Word) → Option Record
  | type :: db :: user :: more =>
    if plain type = some (str "local") then (readAuth b more).map fun auth => ⟨none, none, db, user, auth⟩
    else do
      let ssl ← readType b type
      let (range, more) ← readRange b more
      let auth ← readAuth b more
      some ⟨ssl, some range, db, user, auth⟩
  | _ => none

/-! ## Matches -/

/-- The bits under a mask are the same. -/
def agree {w : Nat} (addr netaddr netmask : BitVec w) : Bool :=
  decide (∀ i : Fin w, netmask.getLsbD i = true → addr.getLsbD i = netaddr.getLsbD i)

/-- An address is in a range; an IPv4 address may be in the last bits of an IPv6 one. -/
def inRange : SockAddr → SockAddr → SockAddr → Bool
  | .inet addr, .inet netaddr, .inet netmask => agree addr netaddr netmask
  | .inet6 addr, .inet6 netaddr, .inet6 netmask => agree addr netaddr netmask
  | .inet6 addr, .inet netaddr, .inet netmask =>
    addr.extractLsb' 32 96 == 0xffff && agree (addr.setWidth 32) netaddr netmask
  | _, _, _ => false

/-- The word stands for the database of a connection. -/
def namesDb (conn : Connection) (w : Word) : Bool :=
  if w.keyword then
    w.text == str "all" || w.text == str "sameuser" && conn.database == conn.username
  else w.text == conn.database

/-- The word stands for the user of a connection. -/
def namesUser (conn : Connection) (w : Word) : Bool :=
  if w.keyword then w.text == str "all" else w.text == conn.username

def Record.matches (b : Build) (conn : Connection) (r : Record) : Bool :=
  (match r.range with
    | none => conn.raddr == .unix
    | some (netaddr, netmask) =>
      r.ssl.all (· == (b.useSsl && conn.ssl)) && inRange conn.raddr netaddr netmask) &&
    r.db.any (namesDb conn) && r.user.any (namesUser conn)

/-- The method of the first record that matches. -/
def firstMethod (b : Build) (conn : Connection) (lines : List (List (List Word))) : UserAuth :=
  ((lines.filterMap (readRecord b)).find? (·.matches b conn)).elim .reject Record.auth

/-- The answer for a connection: the first method, or an error before the first match. -/
def FirstMatch (b : Build) (conn : Connection) (lines : List (List (List Word))) :
    Option UserAuth → Prop
  | some auth => auth = firstMethod b conn lines
  | none => ∃ before line after, lines = before ++ line :: after ∧ readRecord b line = none ∧
      ∀ l ∈ before, ∀ r ∈ readRecord b l, r.matches b conn = false

/-! ## The condition -/

/-- A numeric address has no control characters, and is not a keyword. -/
structure NumericHost (getaddrinfo : Bytes → Option SockAddr) : Prop where
  graphic : ∀ host, multiValueSep ∈ host ∨ newline ∈ host → getaddrinfo host = none
  name : ∀ host ∈ keywords, getaddrinfo host = none

/-- There is no group among the names of a record, and the user is not called like a marked keyword. -/
def CleanNames (conn : Connection) (record : List (List Word)) : Prop :=
  (∀ db ∈ record[1]?, ∀ w ∈ db, w.keyword = true → w.text ≠ str "samegroup") ∧
  ∀ user ∈ record[2]?, ∀ w ∈ user, w.text.head? ≠ some 43 ∧
    (w.keyword = true → w.text ≠ str "all" → w.encode ≠ conn.username)

instance (conn : Connection) (record : List (List Word)) : Decidable (CleanNames conn record) :=
  inferInstanceAs (Decidable (_ ∧ _))

/-- The tokenizer and the lookup take the file as it is meant. -/
structure CleanFile (conn : Connection) (file : Bytes) : Prop where
  lines : ∀ line ∈ file.splitOn newline, CleanLine (words line)
  names : ∀ record ∈ records file, CleanNames conn record

/-! ## Addresses -/

section

variable {b : Build} {conn : Connection}

theorem agree_iff {w : Nat} (addr netaddr netmask : BitVec w) :
    ((addr ^^^ netaddr) &&& netmask == 0) = agree addr netaddr netmask := by
  have hzero (i : Nat) : (0 : BitVec w).getLsbD i = false := by simp
  rw [Bool.eq_iff_iff, beq_iff_eq, agree, decide_eq_true_iff, BitVec.eq_of_getLsbD_eq_iff]
  constructor
  · intro h i hmask
    have hbit := h i i.isLt
    rw [BitVec.getLsbD_and, BitVec.getLsbD_xor, hmask, hzero, Bool.and_true] at hbit
    simpa using hbit
  · intro h i hi
    have hbit := h ⟨i, hi⟩
    rw [BitVec.getLsbD_and, BitVec.getLsbD_xor, hzero]
    cases hmask : netmask.getLsbD i with
    | false => exact Bool.and_false _
    | true =>
      rw [hbit hmask]
      simp

/-- The bits of a promoted address: sixteen ones stand before its own. -/
theorem promoteAddr_bit (netaddr : BitVec 32) {i : Nat} (hi : i < 128) :
    (promoteAddr netaddr).getLsbD i =
      if i < 32 then netaddr.getLsbD i else decide (32 ≤ i ∧ i < 48) := by
  have hones : ∀ i : Fin 128,
      (0xffff00000000 : BitVec 128).getLsbD i = decide (32 ≤ i.val ∧ i.val < 48) := by decide
  rw [promoteAddr, BitVec.getLsbD_or, hones ⟨i, hi⟩, BitVec.getLsbD_setWidth]
  split
  · next hlt => simp [hi, Nat.not_le.mpr hlt]
  · next hge => simp [hi, BitVec.getLsbD_of_ge netaddr i (Nat.not_lt.mp hge)]

theorem promoteMask_bit (netmask : BitVec 32) {i : Nat} (hi : i < 128) :
    (promoteMask netmask).getLsbD i = if i < 32 then netmask.getLsbD i else true := by
  rw [promoteMask, BitVec.getLsbD_append]
  split
  · rfl
  · rw [BitVec.getLsbD_allOnes]
    exact decide_eq_true (by omega)

/-- A promoted range has the IPv6 addresses with an IPv4 address of the range behind the sixteen ones. -/
theorem agree_promote (addr : BitVec 128) (netaddr netmask : BitVec 32) :
    ((addr ^^^ promoteAddr netaddr) &&& promoteMask netmask == 0) =
      (addr.extractLsb' 32 96 == 0xffff && agree (addr.setWidth 32) netaddr netmask) := by
  have hones : ∀ i : Fin 96, (0xffff : BitVec 96).getLsbD i = decide (i.val < 16) := by decide
  rw [agree_iff, Bool.eq_iff_iff, Bool.and_eq_true, beq_iff_eq, agree, agree, decide_eq_true_iff,
    decide_eq_true_iff, BitVec.eq_of_getLsbD_eq_iff]
  constructor
  · intro h
    refine ⟨fun i hi => ?_, fun i hmask => ?_⟩
    · have hbit := h ⟨32 + i, by omega⟩
      dsimp only at hbit
      rw [promoteMask_bit _ (by omega), if_neg (by omega), promoteAddr_bit _ (by omega),
        if_neg (by omega)] at hbit
      rw [BitVec.getLsbD_extractLsb', hbit rfl, hones ⟨i, hi⟩, decide_eq_true hi, Bool.true_and,
        decide_eq_decide]
      dsimp only
      omega
    · have hbit := h ⟨i, by omega⟩
      dsimp only at hbit
      rw [promoteMask_bit _ (by omega), if_pos i.isLt, promoteAddr_bit _ (by omega), if_pos i.isLt] at hbit
      rw [BitVec.getLsbD_setWidth, hbit hmask]
      simp
  · rintro ⟨htop, hlow⟩ i hmask
    rw [promoteMask_bit _ i.isLt] at hmask
    rw [promoteAddr_bit _ i.isLt]
    split
    · next hlt =>
      rw [if_pos hlt] at hmask
      have hbit := hlow ⟨i, hlt⟩ hmask
      rw [BitVec.getLsbD_setWidth, decide_eq_true hlt, Bool.true_and] at hbit
      exact hbit
    · next hge =>
      have hi := i.isLt
      have hlt : i.val - 32 < 96 := by omega
      have hbit := htop (i - 32) hlt
      rw [BitVec.getLsbD_extractLsb', hones ⟨i - 32, hlt⟩, decide_eq_true hlt, Bool.true_and,
        show 32 + (i.val - 32) = i.val by omega] at hbit
      rw [hbit, decide_eq_decide]
      dsimp only
      omega

theorem rangeSockAddr_eq (addr netaddr netmask : SockAddr) :
    rangeSockAddr addr netaddr netmask = inRange addr netaddr netmask := by
  cases addr <;> cases netaddr <;> cases netmask <;>
    first | rfl | exact agree_iff _ _ _ | exact agree_promote _ _ _

/-! ## Fields -/

/-- A field as it comes out of a clean line. -/
structure CleanField (f : List Word) : Prop where
  nonempty : f ≠ []
  clean : ∀ w ∈ f, w.Clean
  oneLine : ∀ w ∈ f, newline ∉ w.text

theorem keyword_mem {w : Word} (h : w.keyword = true) : w.text ∈ keywords := by
  unfold Word.keyword at h
  simpa using (Bool.and_eq_true_iff.mp h).2

theorem separator_not_mem_encode {w : Word} (h : w.Clean) : multiValueSep ∉ w.encode := by
  unfold Word.encode
  split
  · rw [List.mem_append, not_or]
    exact ⟨h.separator, by decide⟩
  · exact h.separator

theorem separator_mem_fieldToken (w w' : Word) (f : List Word) :
    multiValueSep ∈ fieldToken (w :: w' :: f) := by
  rw [fieldToken_cons (List.cons_ne_nil w' f)]
  simp

/-- A field that has to be a certain text, is it. -/
theorem fieldToken_eq_iff {f : List Word} (h : CleanField f) (text : Bytes)
    (htext : multiValueSep ∉ text ∧ newline ∉ text ∧ text ∉ keywords) :
    fieldToken f = text ↔ plain f = some text := by
  match f, h with
  | [], h => exact absurd rfl h.nonempty
  | [w], h =>
    rw [fieldToken_singleton, plain, Option.some_inj, Word.encode]
    split
    · next hkeyword =>
      constructor
      · intro heq
        exact absurd (heq ▸ List.mem_append_right _ List.mem_cons_self) htext.2.1
      · intro heq
        exact absurd (heq ▸ keyword_mem hkeyword) htext.2.2
    · rfl
  | w :: w' :: f, _ =>
    constructor
    · intro heq
      exact absurd (heq ▸ separator_mem_fieldToken w w' f) htext.1
    · intro heq
      cases heq

/-- The words of a field are found again. -/
theorem strtok_fieldToken {f : List Word} (h : CleanField f) :
    strtok (fieldToken f) = f.map Word.encode := by
  unfold strtok fieldToken
  rw [List.splitOn_intercalate]
  · rw [List.filter_eq_self]
    intro tok htok
    obtain ⟨w, hw, rfl⟩ := List.mem_map.mp htok
    exact decide_eq_true (encode_ne_nil (h.clean w hw))
  · intro tok htok
    obtain ⟨w, hw, rfl⟩ := List.mem_map.mp htok
    exact separator_not_mem_encode (h.clean w hw)
  · simpa using h.nonempty

/-! ## Names -/

/-- A marked keyword is told from a name by its newline. -/
theorem encode_eq_marked {w : Word} (hline : newline ∉ w.text) (text : Bytes) :
    w.encode = text ++ [newline] ↔ w.keyword = true ∧ w.text = text := by
  unfold Word.encode
  split
  · next hkeyword => simp [hkeyword]
  · next hname =>
    constructor
    · intro heq
      exact absurd (heq ▸ List.mem_append_right _ List.mem_cons_self) hline
    · exact fun h => absurd h.1 hname

theorem encode_of_name {w : Word} (h : w.keyword = false) : w.encode = w.text := by
  rw [Word.encode, h]
  rfl

theorem keyword_cases {w : Word} (h : w.keyword = true) :
    w.text = str "all" ∨ w.text = str "sameuser" ∨ w.text = str "samegroup" := by
  have hkeywords : keywords = [str "all", str "sameuser", str "samegroup"] := by decide
  simpa [hkeywords] using keyword_mem h

theorem checkDbLoop_eq {db : List Word} (hline : ∀ w ∈ db, newline ∉ w.text)
    (hgroup : ∀ w ∈ db, w.keyword = true → w.text ≠ str "samegroup") :
    checkDbLoop conn.database conn.username (db.map Word.encode) = db.any (namesDb conn) := by
  induction db with
  | nil => rfl
  | cons w db ih =>
    obtain ⟨hw, hdb⟩ := List.forall_mem_cons.mp hline
    obtain ⟨hg, hgroups⟩ := List.forall_mem_cons.mp hgroup
    have hall : w.encode = str "all\n" ↔ w.keyword = true ∧ w.text = str "all" :=
      encode_eq_marked hw (str "all")
    have hsameuser : w.encode = str "sameuser\n" ↔ w.keyword = true ∧ w.text = str "sameuser" :=
      encode_eq_marked hw (str "sameuser")
    have hsamegroup : w.encode = str "samegroup\n" ↔ w.keyword = true ∧ w.text = str "samegroup" :=
      encode_eq_marked hw (str "samegroup")
    rw [List.map_cons, checkDbLoop, List.any_cons, ← ih hdb hgroups]
    simp only [hall, hsameuser, hsamegroup]
    cases hkeyword : w.keyword with
    | false =>
      by_cases htext : w.text = conn.database
      · simp [namesDb, hkeyword, encode_of_name hkeyword, htext]
      · simp [namesDb, hkeyword, encode_of_name hkeyword, htext]
    | true =>
      have hne : str "sameuser" ≠ str "all" := by decide
      obtain htext | htext | htext := keyword_cases hkeyword
      · simp [namesDb, hkeyword, htext]
      · by_cases heq : conn.database = conn.username
        · simp [namesDb, hkeyword, htext, heq, hne]
        · simp [namesDb, hkeyword, htext, heq, hne]
      · exact absurd htext (hg hkeyword)

theorem checkUserLoop_eq {user : List Word} (hline : ∀ w ∈ user, newline ∉ w.text)
    (hclean : ∀ w ∈ user, w.Clean)
    (hnames : ∀ w ∈ user, w.text.head? ≠ some 43 ∧
      (w.keyword = true → w.text ≠ str "all" → w.encode ≠ conn.username)) :
    checkUserLoop conn.username (user.map Word.encode) = user.any (namesUser conn) := by
  induction user with
  | nil => rfl
  | cons w user ih =>
    obtain ⟨hw, hlines⟩ := List.forall_mem_cons.mp hline
    obtain ⟨hwclean, hcleans⟩ := List.forall_mem_cons.mp hclean
    obtain ⟨⟨hplus, hmarked⟩, hothers⟩ := List.forall_mem_cons.mp hnames
    have hall : w.encode = str "all\n" ↔ w.keyword = true ∧ w.text = str "all" :=
      encode_eq_marked hw (str "all")
    rw [List.map_cons, checkUserLoop, head_encode hwclean, if_neg hplus, List.any_cons,
      ← ih hlines hcleans hothers]
    simp only [hall]
    cases hkeyword : w.keyword with
    | false =>
      by_cases htext : w.text = conn.username
      · simp [namesUser, hkeyword, encode_of_name hkeyword, htext]
      · simp [namesUser, hkeyword, encode_of_name hkeyword, htext]
    | true =>
      by_cases htext : w.text = str "all"
      · simp [namesUser, hkeyword, htext]
      · simp [namesUser, hkeyword, htext, hmarked hkeyword htext]

/-- The names of a record stand for a connection as they are meant. -/
theorem matchNames_eq {db user : List Word} {auth : UserAuth} (hdb : CleanField db)
    (huser : CleanField user) (hgroup : ∀ w ∈ db, w.keyword = true → w.text ≠ str "samegroup")
    (hnames : ∀ w ∈ user, w.text.head? ≠ some 43 ∧
      (w.keyword = true → w.text ≠ str "all" → w.encode ≠ conn.username)) :
    matchNames conn (fieldToken db) (fieldToken user) auth =
      if db.any (namesDb conn) && user.any (namesUser conn) then .found auth else .noMatch := by
  rw [matchNames, checkDb, checkUser, strtok_fieldToken hdb, strtok_fieldToken huser,
    checkDbLoop_eq hdb.oneLine hgroup, checkUserLoop_eq huser.oneLine huser.clean hnames]

/-! ## Methods and addresses -/

theorem parseHbaAuth_eq {fields : List (List Word)} (h : ∀ f ∈ fields, CleanField f) :
    parseHbaAuth b (fields.map fieldToken) = readAuth b fields := by
  cases fields with
  | nil => rfl
  | cons method more =>
    have hmethod := h method List.mem_cons_self
    rw [List.map_cons, parseHbaAuth, readAuth, List.length_map]
    have htrust := fieldToken_eq_iff hmethod (str "trust") (by decide)
    have hreject := fieldToken_eq_iff hmethod (str "reject") (by decide)
    have hmd5 := fieldToken_eq_iff hmethod (str "md5") (by decide)
    have hpam := fieldToken_eq_iff hmethod (str "pam") (by decide)
    simp only [htrust, hreject, hmd5, hpam, Bool.and_eq_true, beq_iff_eq]
    by_cases hlength : 1 < more.length
    · simp [hlength]
    · simp [hlength]

theorem getaddrinfo_fieldToken (hnum : NumericHost b.getaddrinfo) {f : List Word} (h : CleanField f) :
    b.getaddrinfo (fieldToken f) = (plain f).bind b.getaddrinfo := by
  match f, h with
  | [], h => exact absurd rfl h.nonempty
  | [w], _ =>
    rw [fieldToken_singleton, plain, Option.bind_some]
    cases hkeyword : w.keyword with
    | false => rw [encode_of_name hkeyword]
    | true =>
      rw [hnum.name _ (keyword_mem hkeyword), Word.encode, hkeyword]
      exact hnum.graphic _ (.inr (List.mem_append_right _ List.mem_cons_self))
  | w :: w' :: f, _ => exact hnum.graphic _ (.inl (separator_mem_fieldToken w w' f))

theorem leading_stops (digit : UInt8 → Option Nat) {text : Bytes} {c : UInt8} (hc : digit c = none)
    (hmem : c ∈ text) : (Radix.leading digit text).2 ≠ [] := by
  induction text with
  | nil => cases hmem
  | cons d text ih =>
    rw [Radix.leading]
    cases hd : digit d with
    | none => exact List.cons_ne_nil _ _
    | some n =>
      obtain rfl | htail := List.mem_cons.mp hmem
      · rw [hc] at hd
        cases hd
      · exact ih htail

/-- No number has a separator in it. -/
theorem strtol_separator {numbits : Bytes} (h : multiValueSep ∈ numbits) : strtol numbits = none := by
  have hspace : multiValueSep ∈ numbits.dropWhile isSpace := by
    have hsplit := List.takeWhile_append_dropWhile (p := isSpace) (l := numbits)
    rw [← hsplit, List.mem_append] at h
    refine h.resolve_left fun htaken => ?_
    have hblank := List.mem_takeWhile_imp htaken
    exact absurd hblank (by decide)
  unfold strtol
  dsimp only
  generalize numbits.dropWhile isSpace = text at hspace ⊢
  have hdigits :
      multiValueSep ∈ if text.head? = some 45 ∨ text.head? = some 43 then text.tail else text := by
    split
    · next hsign =>
      cases text with
      | nil => cases hspace
      | cons c text =>
        refine (List.mem_cons.mp hspace).resolve_left ?_
        rintro rfl
        simp [multiValueSep] at hsign
    · exact hspace
  have hstop := leading_stops decimalDigit (by decide) hdigits
  split
  · rfl
  · rfl
  · next heq => exact absurd (congrArg Prod.snd heq) hstop

theorem cidrMask_separator {numbits : Bytes} (h : multiValueSep ∈ numbits) (family : SockAddr) :
    cidrMask numbits family = none := by
  rw [cidrMask, strtol_separator h]
  rfl

/-- A list is no address. -/
theorem parseAddress_separator (hnum : NumericHost b.getaddrinfo) {token : Bytes}
    (h : multiValueSep ∈ token) (more : List Bytes) : parseAddress b (token :: more) = none := by
  have hsplit := List.takeWhile_append_dropWhile (p := (· != 47)) (l := token)
  rw [parseAddress]
  cases hhost : b.getaddrinfo (token.takeWhile (· != 47)) with
  | none => rfl
  | some addr =>
    have hnot : multiValueSep ∉ token.takeWhile (· != 47) := by
      intro hmem
      rw [hnum.graphic _ (.inl hmem)] at hhost
      cases hhost
    generalize token.takeWhile (· != 47) = host at hsplit hnot hhost ⊢
    -- behind the address stands a slash, and the separator behind it
    cases hrest : token.dropWhile (· != 47) with
    | nil =>
      rw [hrest, List.append_nil] at hsplit
      exact absurd (hsplit ▸ h) hnot
    | cons c numbits =>
      have hslash : c = 47 := by
        have hhead := List.head?_dropWhile_not (· != 47) token
        rw [hrest] at hhead
        simpa using hhead
      subst hslash
      rw [hrest] at hsplit
      subst hsplit
      have hmem : multiValueSep ∈ numbits := by
        obtain hin | hin := List.mem_append.mp h
        · exact absurd hin hnot
        · exact (List.mem_cons.mp hin).resolve_left (by decide)
      have hcontains : (host ++ 47 :: numbits).contains 47 = true := by simp
      have hdrop : (host ++ 47 :: numbits).drop (host.length + 1) = numbits := by simp
      dsimp only
      rw [hdrop, hcontains, cidrMask_separator hmem]
      rfl

theorem parseAddress_eq (hnum : NumericHost b.getaddrinfo) {fields : List (List Word)}
    (h : ∀ f ∈ fields, CleanField f) :
    parseAddress b (fields.map fieldToken) =
      (readRange b fields).map fun (range, more) => (range.1, range.2, more.map fieldToken) := by
  cases fields with
  | nil => rfl
  | cons field more =>
    have hfield := h field List.mem_cons_self
    rw [List.map_cons]
    match field, hfield with
    | [], hfield => exact absurd rfl hfield.nonempty
    | w :: w' :: f, _ => exact parseAddress_separator hnum (separator_mem_fieldToken w w' f) _
    | [w], _ =>
      have hplain : plain [w] = some w.text := rfl
      rw [fieldToken_singleton]
      cases hkeyword : w.keyword with
      | true =>
        have hslash : ∀ text ∈ keywords, text.takeWhile (· != 47) = text ∧
            (text ++ [newline]).takeWhile (· != 47) = text ++ [newline] := by decide
        have hmem := keyword_mem hkeyword
        have hencode : w.encode = w.text ++ [newline] := by
          rw [Word.encode, hkeyword]
          rfl
        have hmarked : b.getaddrinfo (w.text ++ [newline]) = none :=
          hnum.graphic _ (.inr (List.mem_append_right _ List.mem_cons_self))
        simp only [hencode, parseAddress, (hslash _ hmem).2, hmarked, readRange, hplain,
          Option.bind_eq_bind, Option.bind_some, (hslash _ hmem).1, hnum.name _ hmem, Option.bind_none, Option.map_none]
      | false =>
        rw [encode_of_name hkeyword, parseAddress, readRange]
        simp only [hplain, Option.bind_eq_bind, Option.bind_some]
        cases hhost : b.getaddrinfo (w.text.takeWhile (· != 47)) with
        | none => rfl
        | some addr =>
          rw [Option.bind_some]
          dsimp only
          split
          · cases cidrMask (w.text.drop ((w.text.takeWhile (· != 47)).length + 1)) addr <;> rfl
          · cases more with
            | nil => rfl
            | cons maskField more =>
              have hmask := h maskField (List.mem_cons_of_mem _ List.mem_cons_self)
              rw [List.map_cons]
              dsimp only
              rw [getaddrinfo_fieldToken hnum hmask]
              cases (plain maskField).bind b.getaddrinfo with
              | none => rfl
              | some mask =>
                rw [Option.bind_some]
                dsimp only
                split <;> rfl

theorem readRange_rest {fields rest : List (List Word)} {range : SockAddr × SockAddr}
    (h : readRange b fields = some (range, rest)) : ∀ f ∈ rest, f ∈ fields := by
  cases fields with
  | nil => cases h
  | cons field more =>
    rw [readRange] at h
    obtain ⟨text, -, h⟩ := Option.bind_eq_some_iff.mp h
    obtain ⟨addr, -, h⟩ := Option.bind_eq_some_iff.mp h
    split at h
    · obtain ⟨mask, -, h⟩ := Option.bind_eq_some_iff.mp h
      cases h
      exact fun f hf => List.mem_cons_of_mem _ hf
    · cases more with
      | nil => cases h
      | cons maskField more =>
        obtain ⟨mask, -, h⟩ := Option.bind_eq_some_iff.mp h
        obtain ⟨-, h⟩ := Option.ite_none_right_eq_some.mp h
        cases h
        exact fun f hf => List.mem_cons_of_mem _ (List.mem_cons_of_mem _ hf)

/-! ## A line -/

/-- What `parse_hba` may say about a line. -/
def Meant (b : Build) (conn : Connection) (line : List (List Word)) : LineResult → Prop
  | .noMatch => ∀ r ∈ readRecord b line, r.matches b conn = false
  | .found auth => ∃ r ∈ readRecord b line, r.matches b conn = true ∧ r.auth = auth
  | .error => readRecord b line = none

/-- The names decide about a record of which the rest matches. -/
theorem meant_names {record : List (List Word)} {r : Record} {db user : List Word}
    (hr : readRecord b record = some r) (hdb : CleanField db) (huser : CleanField user)
    (hnames : CleanNames conn record) (hline : record[1]? = some db ∧ record[2]? = some user)
    (hmatches : r.matches b conn = (db.any (namesDb conn) && user.any (namesUser conn))) :
    Meant b conn record (matchNames conn (fieldToken db) (fieldToken user) r.auth) := by
  rw [matchNames_eq hdb huser (hnames.1 db hline.1) (hnames.2 user hline.2), ← hmatches]
  cases hfound : r.matches b conn with
  | true => exact ⟨r, hr, hfound, rfl⟩
  | false =>
    rintro r' hr'
    rw [hr] at hr'
    cases hr'
    exact hfound

theorem meant_noMatch {line : List (List Word)} {r : Record} (hr : readRecord b line = some r)
    (h : r.matches b conn = false) : Meant b conn line .noMatch := by
  rintro r' hr'
  rw [hr] at hr'
  cases hr'
  exact h

theorem parseLocal_meant {type : List Word} {fields : List (List Word)}
    (htype : plain type = some (str "local")) (h : ∀ f ∈ fields, CleanField f)
    (hnames : CleanNames conn (type :: fields)) :
    Meant b conn (type :: fields) (parseLocal b conn (fields.map fieldToken)) := by
  match fields, h with
  | [], _ => rfl
  | [_], _ => rfl
  | db :: user :: more, h =>
    obtain ⟨hdb, hrest⟩ := List.forall_mem_cons.mp h
    obtain ⟨huser, hmore⟩ := List.forall_mem_cons.mp hrest
    have hread : readRecord b (type :: db :: user :: more) =
        (readAuth b more).map fun auth => ⟨none, none, db, user, auth⟩ := by rw [readRecord, if_pos htype]
    rw [List.map_cons, List.map_cons, parseLocal, parseHbaAuth_eq hmore]
    cases hauth : readAuth b more with
    | none =>
      rw [hauth] at hread
      exact hread
    | some auth =>
      rw [hauth] at hread
      dsimp only
      by_cases hunix : conn.raddr = .unix
      · rw [if_pos hunix]
        exact meant_names hread hdb huser hnames ⟨rfl, rfl⟩ (by simp [Record.matches, hunix])
      · rw [if_neg hunix]
        exact meant_noMatch hread (by simp [Record.matches, hunix])

theorem readRecord_host {type : List Word} {ssl : Option Bool} (db user : List Word)
    (more : List (List Word)) (hlocal : plain type ≠ some (str "local"))
    (htype : readType b type = some ssl) :
    readRecord b (type :: db :: user :: more) =
      (readRange b more).bind fun (range, rest) =>
        (readAuth b rest).bind fun auth => some ⟨ssl, some range, db, user, auth⟩ := by
  rw [readRecord, if_neg hlocal, htype]
  rfl

/-- A record for TCP/IP that asks nothing of the connection that it does not have. -/
theorem parseHost_meant (hnum : NumericHost b.getaddrinfo) {type : List Word} {ssl : Option Bool}
    {fields : List (List Word)} (hlocal : plain type ≠ some (str "local"))
    (htype : readType b type = some ssl) (hssl : ssl.all (· == (b.useSsl && conn.ssl)) = true)
    (h : ∀ f ∈ fields, CleanField f) (hnames : CleanNames conn (type :: fields)) :
    Meant b conn (type :: fields) (parseHost b conn (fields.map fieldToken)) := by
  match fields, h with
  | [], _ => rfl
  | [_], _ => rfl
  | db :: user :: more, h =>
    obtain ⟨hdb, hrest⟩ := List.forall_mem_cons.mp h
    obtain ⟨huser, hmore⟩ := List.forall_mem_cons.mp hrest
    have hread := readRecord_host db user more hlocal htype
    rw [List.map_cons, List.map_cons, parseHost, parseAddress_eq hnum hmore]
    cases hrange : readRange b more with
    | none =>
      rw [hrange] at hread
      exact hread
    | some found =>
      obtain ⟨⟨netaddr, netmask⟩, rest⟩ := found
      have hrest : ∀ f ∈ rest, CleanField f := fun f hf => hmore f (readRange_rest hrange f hf)
      rw [hrange, Option.bind_some] at hread
      rw [Option.map_some]
      dsimp only at hread ⊢
      rw [parseHbaAuth_eq hrest, rangeSockAddr_eq]
      cases hauth : readAuth b rest with
      | none =>
        rw [hauth] at hread
        split
        · exact hread
        · intro r hr
          rw [hread] at hr
          cases hr
      | some auth =>
        rw [hauth, Option.bind_some] at hread
        dsimp only
        by_cases hin : inRange conn.raddr netaddr netmask = true
        · rw [if_pos hin]
          exact meant_names hread hdb huser hnames ⟨rfl, rfl⟩ (by simp only [Record.matches, hssl, hin,
            Bool.and_self, Bool.true_and])
        · rw [if_neg hin]
          exact meant_noMatch hread (by simp [Record.matches, hin])

theorem meant_type {type : List Word} {fields : List (List Word)} (hlocal : plain type ≠ some (str "local"))
    (htype : readType b type = none) : Meant b conn (type :: fields) .error := by
  match fields with
  | [] => rfl
  | [_] => rfl
  | db :: user :: more =>
    unfold Meant
    dsimp only
    rw [readRecord, if_neg hlocal, htype]
    rfl

/-- A record that asks something else of the connection than it has. -/
theorem meant_ssl {type : List Word} {ssl : Option Bool} {fields : List (List Word)}
    (hlocal : plain type ≠ some (str "local")) (htype : readType b type = some ssl)
    (hssl : ssl.all (· == (b.useSsl && conn.ssl)) = false) : Meant b conn (type :: fields) .noMatch := by
  intro r hr
  match fields with
  | [] => cases hr
  | [_] => cases hr
  | db :: user :: more =>
    rw [readRecord_host db user more hlocal htype] at hr
    obtain ⟨⟨range, rest⟩, -, hr⟩ := Option.bind_eq_some_iff.mp hr
    obtain ⟨auth, -, hr⟩ := Option.bind_eq_some_iff.mp hr
    cases hr
    simp only [Record.matches, hssl, Bool.false_and]

/-- `parse_hba` says of a line what its record means. -/
theorem parseHba_meant (hnum : NumericHost b.getaddrinfo) {line : List (List Word)} (hne : line ≠ [])
    (h : ∀ f ∈ line, CleanField f) (hnames : CleanNames conn line) :
    Meant b conn line (parseHba b conn (line.map fieldToken)) := by
  cases line with
  | nil => exact absurd rfl hne
  | cons type fields =>
    obtain ⟨htype, hfields⟩ := List.forall_mem_cons.mp h
    have hlocal := fieldToken_eq_iff htype (str "local") (by decide)
    have hhost := fieldToken_eq_iff htype (str "host") (by decide)
    have hhostssl := fieldToken_eq_iff htype (str "hostssl") (by decide)
    have hhostnossl := fieldToken_eq_iff htype (str "hostnossl") (by decide)
    rw [List.map_cons, parseHba]
    simp only [hlocal, hhost, hhostssl, hhostnossl]
    by_cases hl : plain type = some (str "local")
    · rw [if_pos hl]
      exact parseLocal_meant hl hfields hnames
    rw [if_neg hl]
    by_cases hh : plain type = some (str "host")
    · rw [if_pos hh]
      have hread : readType b type = some none := by rw [readType, if_pos hh]
      exact parseHost_meant hnum hl hread rfl hfields hnames
    rw [if_neg hh]
    by_cases hs : plain type = some (str "hostssl")
    · rw [if_pos hs]
      cases hbuild : b.useSsl with
      | false => exact meant_type hl (by rw [readType, if_neg hh, if_pos hs, hbuild]; rfl)
      | true =>
        have hread : readType b type = some (some true) := by
          rw [readType, if_neg hh, if_pos hs, if_pos hbuild]
        cases hconn : conn.ssl with
        | false => exact meant_ssl hl hread (by rw [hbuild, hconn]; rfl)
        | true => exact parseHost_meant hnum hl hread (by rw [hbuild, hconn]; rfl) hfields hnames
    rw [if_neg hs]
    by_cases hn : plain type = some (str "hostnossl")
    · rw [if_pos hn]
      have hread : readType b type = some (some false) := by
        rw [readType, if_neg hh, if_neg hs, if_pos hn]
      cases hconn : b.useSsl && conn.ssl with
      | true => exact meant_ssl hl hread (by rw [hconn]; rfl)
      | false => exact parseHost_meant hnum hl hread (by rw [hconn]; rfl) hfields hnames
    · rw [if_neg hn]
      exact meant_type hl (by rw [readType, if_neg hh, if_neg hs, if_neg hn])

/-! ## The records of a file -/

theorem firstMethod_cons {record : List (List Word)} (h : Meant b conn record .noMatch)
    (rs : List (List (List Word))) : firstMethod b conn (record :: rs) = firstMethod b conn rs := by
  unfold firstMethod
  cases hr : readRecord b record with
  | none => rw [List.filterMap_cons_none hr]
  | some r => rw [List.filterMap_cons_some hr, List.find?_cons_of_neg (by simp [h r hr])]

theorem checkHba_meant (hnum : NumericHost b.getaddrinfo) {lines : List HbaLine}
    {rs : List (List (List Word))} (heq : lines.map HbaLine.tokens = rs.map (List.map fieldToken))
    (hne : ∀ r ∈ rs, r ≠ []) (hclean : ∀ r ∈ rs, ∀ f ∈ r, CleanField f)
    (hnames : ∀ r ∈ rs, CleanNames conn r) : FirstMatch b conn rs (checkHba b conn lines) := by
  induction rs generalizing lines with
  | nil =>
    obtain rfl := List.map_eq_nil_iff.mp heq
    rfl
  | cons record rs ih =>
    match lines with
    | [] => cases heq
    | line :: lines =>
      obtain ⟨htokens, hlines⟩ := List.cons_eq_cons.mp heq
      obtain ⟨hrecord, hnes⟩ := List.forall_mem_cons.mp hne
      obtain ⟨hfields, hcleans⟩ := List.forall_mem_cons.mp hclean
      obtain ⟨hname, hothers⟩ := List.forall_mem_cons.mp hnames
      have hmeant := parseHba_meant hnum hrecord hfields hname
      have hrest := ih hlines hnes hcleans hothers
      rw [checkHba, htokens]
      cases hresult : parseHba b conn (record.map fieldToken) with
      | error =>
        rw [hresult] at hmeant
        exact ⟨[], record, rs, rfl, hmeant, nofun⟩
      | found auth =>
        rw [hresult] at hmeant
        obtain ⟨r, hr, hmatches, rfl⟩ := hmeant
        simp only [FirstMatch, firstMethod, List.filterMap_cons_some hr, List.find?_cons_of_pos hmatches,
          Option.elim_some]
      | noMatch =>
        rw [hresult] at hmeant
        have hskip := firstMethod_cons hmeant rs
        cases hcheck : checkHba b conn lines with
        | some auth =>
          rw [hcheck] at hrest
          exact hrest.trans hskip.symm
        | none =>
          rw [hcheck] at hrest
          obtain ⟨before, bad, after, rfl, hbad, hbefore⟩ := hrest
          exact ⟨record :: before, bad, after, rfl, hbad, List.forall_mem_cons.mpr ⟨hmeant, hbefore⟩⟩

theorem newline_not_mem_splitOn (file : Bytes) : ∀ line ∈ file.splitOn newline, newline ∉ line := by
  induction file with
  | nil => simp
  | cons c file ih =>
    rw [List.splitOn_cons_eq_if_modifyHead]
    split
    · exact List.forall_mem_cons.mpr ⟨nofun, ih⟩
    · next hc =>
      cases hsplit : file.splitOn newline with
      | nil => exact nofun
      | cons line lines =>
        rw [hsplit] at ih
        obtain ⟨hline, hlines⟩ := List.forall_mem_cons.mp ih
        refine List.forall_mem_cons.mpr ⟨?_, hlines⟩
        rw [List.mem_cons, not_or]
        exact ⟨fun heq => hc (beq_iff_eq.mpr heq.symm), hline⟩

theorem cleanField_of_mem {file : Bytes} (h : ∀ line ∈ file.splitOn newline, CleanLine (words line))
    {record : List (List Word)} (hrecord : record ∈ records file) {f : List Word} (hf : f ∈ record) :
    CleanField f := by
  obtain ⟨hmem, -⟩ := List.mem_filter.mp hrecord
  obtain ⟨line, hline, rfl⟩ := List.mem_map.mp hmem
  have hwords : ∀ w ∈ f, w ∈ words line := fun w hw =>
    flatten_fields (words line) ▸ List.mem_flatten_of_mem hf hw
  have hnewline := newline_not_mem_words (newline_not_mem_splitOn file line hline)
  exact ⟨ne_nil_of_mem_fields _ f hf, fun w hw => (h line hline).1 w (hwords w hw),
    fun w hw => hnewline w (hwords w hw)⟩

/-- Where the tokenizer and the lookup take the file as it is meant, `check_hba` finds the first record that
matches. -/
theorem checkHba_firstMatch (hnum : NumericHost b.getaddrinfo) (incFile : Bytes → Bytes) {file : Bytes}
    (h : CleanFile conn file) :
    FirstMatch b conn (records file) (checkHba b conn (tokenizeFile incFile file)) := by
  refine checkHba_meant hnum (tokenizeFile_eq incFile h.lines) (fun record hrecord => ?_)
    (fun record hrecord f hf => cleanField_of_mem h.lines hrecord hf) h.names
  exact of_decide_eq_true (List.mem_filter.mp hrecord).2

end

/-! ## Two files -/

/-- A resolver of one address. -/
def resolves (host : Bytes) : Option SockAddr :=
  if host = str "10.0.0.0" then some (.inet 0x0a000000) else none

theorem numericHost_resolves : NumericHost resolves where
  graphic host h := if_neg fun heq => absurd (heq ▸ h) (by decide)
  name := by decide

def sampleBuild : Build := ⟨false, false, resolves⟩

def bob : Connection := ⟨.inet 0x0a010203, false, str "bob", str "bob"⟩

def sampleFile : Bytes :=
  str "# names\nlocal \"all\",sales alice reject\n\nhost sameuser \"bob,x\", bob 10.0.0.0/8 md5 # inside\n"

/-- The second record of the file is that of a user in his own database. -/
theorem checkHba_firstMatch_sample :
    checkHba sampleBuild bob (tokenizeFile id sampleFile) = some .md5 ∧
    FirstMatch sampleBuild bob (records sampleFile)
      (checkHba sampleBuild bob (tokenizeFile id sampleFile)) :=
  ⟨by decide +kernel,
    checkHba_firstMatch numericHost_resolves id ⟨by decide +kernel, by decide +kernel⟩⟩

def listFile : Bytes := str "local all,sales bob trust\n"

def bobInStock : Connection := ⟨.unix, false, str "stock", str "bob"⟩

/-- A keyword before a comma is not marked, so that its record is missed. -/
theorem not_firstMatch_list : checkHba sampleBuild bobInStock (tokenizeFile id listFile) = some .reject ∧
    ¬FirstMatch sampleBuild bobInStock (records listFile)
      (checkHba sampleBuild bobInStock (tokenizeFile id listFile)) := by
  have hcheck : checkHba sampleBuild bobInStock (tokenizeFile id listFile) = some .reject := by
    decide +kernel
  refine ⟨hcheck, fun hfirst => ?_⟩
  rw [hcheck] at hfirst
  have hmethod : firstMethod sampleBuild bobInStock (records listFile) = .trust := by decide +kernel
  exact absurd (hfirst.trans hmethod) (by decide)

end PgPool.Hba
