import PgPool.Parser.Faithful

/-!
# Statements that are composed

`send_deallocate`, `insert_lock` and `connect_using_existing_connection` put a name between quotes in a
statement of their own.  The statement is read with the rules of `scan.l`; it has to be read as one
statement, about this name, with nothing after it.
-/

namespace PgPool.Deparse

/-! ## Composing -/

def ascii (text : String) : Bytes := text.toList.map fun c => UInt8.ofNat c.toNat

/-- `send_deallocate`; nothing is sent where the length does not fit into an `int`. -/
def sendDeallocate (name : Bytes) : Option Bytes :=
  -- "DEALLOCATE \"" + "\"" + '\0'
  let len := name.length + 14
  if len < 2 ^ 31 then some (ascii "DEALLOCATE \"" ++ name ++ ascii "\"") else none

/-- `snprintf` into a buffer of 1024 bytes. -/
def snprintf (text : Bytes) : Bytes := text.take 1023

/-- The command of `connect_using_existing_connection`. -/
def setApplicationName (name : Bytes) : Bytes :=
  snprintf (ascii "SET application_name TO '" ++ (name ++ ascii "'"))

/-- The relation of an `InsertStmt`. -/
structure InsertTarget where
  catalogname : Option Bytes
  schemaname : Option Bytes
  relname : Bytes

namespace InsertTarget

def relation (target : InsertTarget) : RangeVar :=
  ⟨target.catalogname, target.schemaname, target.relname, none, false⟩

/-- `get_insert_command_table_name`, by way of `nodeToString` -/
def table (target : InsertTarget) : Bytes := (outRangeVar target.relation).flatMap Piece.text

/-- The names of the target, from left to right. -/
def names (target : InsertTarget) : List Bytes :=
  target.catalogname.toList ++ target.schemaname.toList ++ [target.relname]

end InsertTarget

/-- `MAX_NAME_LEN` -/
def maxNameLen : Nat := 128

/-- `insert_lock` with the lock on the table.  The name without its quotes is put into `rel_name`, which
may be too small for it. -/
def insertLock (target : InsertTarget) : Option Bytes :=
  let relName := target.table.filter (· ≠ dquote)
  if relName.length ≤ maxNameLen then
    some (snprintf (ascii "LOCK TABLE " ++ (target.table ++ ascii " IN SHARE ROW EXCLUSIVE MODE")))
  else none

/-! ## Scanning a statement -/

/-- A keyword or an identifier without quotes, in lower case, or another token. -/
inductive Lexeme where
  | word (text : Bytes)
  | token (t : Token)
  deriving DecidableEq, Repr

def isIdentStart (c : UInt8) : Bool := (65 ≤ c && c ≤ 90) || (97 ≤ c && c ≤ 122) || 128 ≤ c || c == 95
def isIdentCont (c : UInt8) : Bool := isIdentStart c || isDigit c || c == 36

def downcase (c : UInt8) : UInt8 := if 65 ≤ c && c ≤ 90 then c + 32 else c

/-- `xbstart`, `xhstart`, `xnstart`, `xestart`, `xusstart` and `xuistart` -/
def startsConstant (c : UInt8) (rest : Bytes) : Bool :=
  ((ascii "bxne").contains (downcase c) && rest.head? == some quote) ||
    (downcase c == 117 && rest.head? == some 38 && (rest[1]? == some quote || rest[1]? == some dquote))

/-- State `xc`: what follows the comment. -/
def afterBlockComment : Nat → Bytes → Option Bytes
  | xcdepth, c :: c' :: rest =>
    if c = 47 ∧ c' = 42 then afterBlockComment (xcdepth + 1) rest
    else if c = 42 ∧ c' = 47 then
      match xcdepth with
      | 0 => some rest
      | depth + 1 => afterBlockComment depth rest
    else afterBlockComment xcdepth (c' :: rest)
  | _, _ => none

/-- `self`, without the operators, the point and the colon. -/
def selfChars : Bytes := ascii ",()[];"

/-- One rule of the scanner, with what follows; white space has no lexeme.  Bit strings, parameters and
the other kinds of quotes are in no statement here, and are not read. -/
def lexeme (s : Settings) (text : Bytes) : Option (Option Lexeme × Bytes) :=
  match text with
  | [] => none
  | c :: rest =>
    if isSpace c then some (none, rest)
    else if isComment text then some (none, afterComment text)
    else if [47, 42].isPrefixOf text then (afterBlockComment 0 rest.tail).map (none, ·)
    else if isIdentStart c then
      if startsConstant c rest then none
      else some (some (.word ((text.takeWhile isIdentCont).map downcase)), text.dropWhile isIdentCont)
    else if selfChars.contains c then some (some (.token (.char c)), rest)
    else (yylex s text).map fun (t, rest) => (some (.token t), rest)

/-- The lexemes of a text, up to its end. -/
def lexemes (s : Settings) : Nat → Bytes → Option (List Lexeme)
  | _, [] => some []
  | 0, _ :: _ => none
  | fuel + 1, text@(_ :: _) =>
    match lexeme s text with
    | none => none
    | some (none, rest) => lexemes s fuel rest
    | some (some lx, rest) => (lexemes s fuel rest).map (lx :: ·)

/-- Every rule takes something of the text. -/
def scanned (s : Settings) (text : Bytes) : Option (List Lexeme) := lexemes s text.length text

/-! ## What the statements mean -/

def words (text : List String) : List Lexeme := text.map fun word => .word (ascii word)

def deallocateStmt (name : Bytes) : List Lexeme := words ["deallocate"] ++ [.token (.ident name)]

def setStmt (name : Bytes) : List Lexeme :=
  words ["set", "application_name", "to"] ++ [.token (.sconst name)]

/-- Names with points between them. -/
def dottedLexemes : List Bytes → List Lexeme
  | [] => []
  | [name] => [.token (.ident name)]
  | name :: next :: rest => .token (.ident name) :: .token (.char point) :: dottedLexemes (next :: rest)

def lockStmt (target : InsertTarget) : List Lexeme :=
  words ["lock", "table"] ++ (dottedLexemes target.names ++
    words ["in", "share", "row", "exclusive", "mode"])

/-- A statement is composed, and it is the one that is meant. -/
def Means (s : Settings) (text : Option Bytes) (stmt : List Lexeme) : Prop :=
  text.bind (scanned s) = some stmt

section

variable {s : Settings} {name rest text lit more tail : Bytes} {names : List Bytes} {fuel : Nat}

/-! ## Rules of the scanner -/

theorem lexemes_token (lx : Lexeme) (rest : Bytes) (h : lexeme s text = some (some lx, rest)) :
    lexemes s (fuel + 1) text = (lexemes s fuel rest).map (lx :: ·) := by
  cases text with
  | nil => cases h
  | cons c text =>
    rw [lexemes, h]

theorem lexeme_dquote : lexeme s (dquote :: text) =
    (scanIdentifier text).map fun (t, rest) => (some (.token t), rest) := rfl

theorem lexeme_quote : lexeme s (quote :: text) =
    (scanString s text).map fun (t, rest) => (some (.token t), rest) := rfl

theorem lexeme_point (h : ∀ c ∈ text.head?, c = dquote) :
    lexeme s (point :: text) = some (some (.token (.char point)), text) := by
  cases text with
  | nil => rfl
  | cons c text =>
    obtain rfl := h c rfl
    rfl

/-- An identifier has been read, of one character at least. -/
theorem scanIdentifier_eq_some {t : Token} :
    scanIdentifier text = some (t, rest) ↔
      ∃ name, name ≠ [] ∧ t = .ident name ∧ scanXd text = some (name, rest) := by
  unfold scanIdentifier
  cases hscan : scanXd text with
  | none => exact iff_of_false nofun (fun ⟨_, _, _, h⟩ => nomatch h)
  | some found =>
    obtain ⟨_ | ⟨c, lit⟩, rest'⟩ := found
    · refine iff_of_false nofun fun ⟨name, hne, _, h⟩ => ?_
      cases h
      exact hne rfl
    · constructor
      · intro h
        cases h
        exact ⟨_, List.cons_ne_nil _ _, rfl, rfl⟩
      · intro ⟨name, _, ht, h⟩
        cases h
        rw [ht]

/-- The next lexeme is an identifier in quotes. -/
theorem lexemes_ident {stmt : List Lexeme}
    (h : lexemes s fuel (dquote :: text) = some (.token (.ident name) :: stmt)) :
    ∃ rest fuel', name ≠ [] ∧ scanXd text = some (name, rest) ∧ lexemes s fuel' rest = some stmt := by
  obtain _ | fuel := fuel
  · cases h
  · cases hscan : scanIdentifier text with
    | none =>
      rw [lexemes, lexeme_dquote, hscan] at h
      cases h
    | some found =>
      obtain ⟨t, rest⟩ := found
      rw [lexemes_token (.token t) rest (by rw [lexeme_dquote, hscan]; rfl)] at h
      obtain ⟨stmt', hstmt, heq⟩ := Option.map_eq_some_iff.mp h
      obtain ⟨name', hne, rfl, hname⟩ := scanIdentifier_eq_some.mp hscan
      cases heq
      exact ⟨rest, fuel, hne, hname, hstmt⟩

/-! ## Names in quotes -/

theorem requoted_of_plain (h : dquote ∉ name) : requoted name = name := by
  induction name with
  | nil => rfl
  | cons c name ih =>
    obtain ⟨hc, hname⟩ := not_or.mp (mt List.mem_cons.mpr h)
    rw [requoted_cons, if_neg (Ne.symm hc), ih hname]
    rfl

/-- Once a quote of the name has been taken for the closing one, the quotes that are still to come never
run out before the end of the name. -/
theorem head_of_quotes {j : Nat}
    (h : name ++ dquote :: tail = List.replicate (j + 1) dquote ++ (requoted name ++ dquote :: rest)) :
    tail.head? = some dquote := by
  induction name generalizing j with
  | nil =>
    rw [List.replicate_succ, List.cons_append] at h
    obtain ⟨-, htail⟩ := List.cons.inj h
    rw [htail]
    cases j <;> rfl
  | cons c name ih =>
    rw [List.replicate_succ, List.cons_append, List.cons_append] at h
    obtain ⟨rfl, hname⟩ := List.cons.inj h
    refine @ih (j + 1) ?_
    rw [hname, requoted_cons, if_pos rfl, List.replicate_succ', List.replicate_succ']
    simp

/-- A name that is scanned as itself has no quote. -/
theorem plain_of_requoted (h : name ++ dquote :: tail = requoted name ++ dquote :: rest)
    (htail : tail.head? ≠ some dquote) : dquote ∉ name := by
  induction name with
  | nil => exact List.not_mem_nil
  | cons c name ih =>
    rw [requoted_cons] at h
    by_cases hc : c = dquote
    · rw [if_pos hc, hc] at h
      obtain ⟨-, hname⟩ := List.cons.inj h
      exact absurd (head_of_quotes (j := 0) hname) htail
    · rw [if_neg hc] at h
      obtain ⟨-, hname⟩ := List.cons.inj h
      exact mt List.mem_cons.mp (not_or.mpr ⟨Ne.symm hc, ih hname⟩)

theorem scanXd_plain (h : dquote ∉ name) (htail : tail.head? ≠ some dquote) :
    scanXd (name ++ dquote :: tail) = some (name, tail) := by
  induction name with
  | nil =>
    cases tail with
    | nil => rfl
    | cons c tail =>
      have hc : c ≠ dquote := fun heq => htail (congrArg some heq)
      rw [List.nil_append, scanXd, if_pos rfl, if_neg hc]
  | cons c name ih =>
    obtain ⟨hc, hname⟩ := not_or.mp (mt List.mem_cons.mpr h)
    obtain ⟨c', tail', hnext⟩ : ∃ c' tail', name ++ dquote :: tail = c' :: tail' :=
      List.exists_cons_of_ne_nil (by simp)
    rw [List.cons_append, hnext, scanXd, if_neg (Ne.symm hc), ← hnext, ih hname]
    rfl

theorem lexeme_plain (hne : name ≠ []) (h : dquote ∉ name) (htail : tail.head? ≠ some dquote) :
    lexeme s (dquote :: (name ++ dquote :: tail)) = some (some (.token (.ident name)), tail) := by
  have hscan : scanIdentifier (name ++ dquote :: tail) = some (.ident name, tail) :=
    scanIdentifier_eq_some.mpr ⟨name, hne, rfl, scanXd_plain h htail⟩
  rw [lexeme_dquote, hscan]
  rfl

/-- A prefix of a text has a name in quotes at its head. -/
theorem plain_of_scan (more : Bytes) (hscan : scanXd text = some (name, rest))
    (htext : text ++ more = name ++ dquote :: tail) (htail : tail.head? ≠ some dquote) :
    dquote ∉ name ∧ rest ++ more = tail := by
  rw [scanXd_eq_some hscan, List.append_assoc, List.cons_append] at htext
  have hplain := plain_of_requoted htext.symm htail
  rw [requoted_of_plain hplain] at htext
  exact ⟨hplain, (List.cons.inj (List.append_cancel_left htext)).2⟩

/-! ## Names with points between them -/

def dotted : List Bytes → Bytes
  | [] => []
  | [name] => dquote :: (name ++ [dquote])
  | name :: next :: rest => dquote :: (name ++ dquote :: point :: dotted (next :: rest))

theorem lexemes_dotted (hplain : ∀ n ∈ name :: names, n ≠ [] ∧ dquote ∉ n)
    (htail : tail.head? ≠ some dquote) :
    lexemes s (fuel + (2 * names.length + 1)) (dotted (name :: names) ++ tail) =
      (lexemes s fuel tail).map (dottedLexemes (name :: names) ++ ·) := by
  obtain ⟨⟨hne, hname⟩, hnames⟩ := List.forall_mem_cons.mp hplain
  induction names generalizing name with
  | nil =>
    have htext : dotted [name] ++ tail = dquote :: (name ++ dquote :: tail) := by simp [dotted]
    rw [htext]
    exact lexemes_token _ _ (lexeme_plain hne hname htail)
  | cons next names ih =>
    obtain ⟨⟨hne', hname'⟩, hnames'⟩ := List.forall_mem_cons.mp hnames
    have htext : dotted (name :: next :: names) ++ tail =
        dquote :: (name ++ dquote :: point :: (dotted (next :: names) ++ tail)) := by simp [dotted]
    have hfuel : fuel + (2 * (next :: names).length + 1) = fuel + (2 * names.length + 1) + 1 + 1 := by
      rw [List.length_cons]
      omega
    have hhead : ∀ c ∈ (dotted (next :: names) ++ tail).head?, c = dquote := by
      cases names <;> simp [dotted]
    rw [htext, hfuel, lexemes_token _ _ (lexeme_plain hne hname (by simp; decide)),
      lexemes_token _ _ (lexeme_point hhead), ih hnames hnames' hne' hname']
    cases lexemes s fuel tail <;> rfl

/-- What has been cut off does not help. -/
theorem plain_of_lexemes {stmt : List Lexeme} (htail : tail.head? ≠ some dquote)
    (htext : text ++ more = dotted (name :: names) ++ tail)
    (h : lexemes s fuel text = some (dottedLexemes (name :: names) ++ stmt)) :
    ∀ n ∈ name :: names, n ≠ [] ∧ dquote ∉ n := by
  induction names generalizing name text fuel with
  | nil =>
    obtain _ | ⟨c, text⟩ := text
    · cases fuel <;> cases h
    · have htext' : c :: (text ++ more) = dquote :: (name ++ dquote :: tail) := by
        simpa [dotted] using htext
      obtain ⟨rfl, hrest⟩ := List.cons.inj htext'
      obtain ⟨rest, -, hne, hscan, -⟩ := lexemes_ident h
      exact List.forall_mem_singleton.mpr ⟨hne, (plain_of_scan more hscan hrest htail).1⟩
  | cons next names ih =>
    obtain _ | ⟨c, text⟩ := text
    · cases fuel <;> cases h
    · have htext' : c :: (text ++ more) =
          dquote :: (name ++ dquote :: point :: (dotted (next :: names) ++ tail)) := by
        simpa [dotted] using htext
      obtain ⟨rfl, hrest⟩ := List.cons.inj htext'
      obtain ⟨rest, fuel', hne, hscan, hstmt⟩ := lexemes_ident h
      obtain ⟨hname, hnext⟩ := plain_of_scan more hscan hrest (by simp; decide)
      obtain _ | ⟨c, rest⟩ := rest
      · cases fuel' <;> cases hstmt
      · obtain ⟨rfl, hnext'⟩ := List.cons.inj hnext
        have hhead : ∀ c ∈ rest.head?, c = dquote := by
          intro c hc
          obtain ⟨rest', rfl⟩ : ∃ rest', rest = c :: rest' := List.head?_eq_some_iff.mp hc
          have hfirst := congrArg List.head? hnext'
          cases names <;> simpa [dotted] using hfirst
        obtain _ | fuel' := fuel'
        · cases hstmt
        · rw [lexemes_token _ _ (lexeme_point hhead)] at hstmt
          obtain ⟨stmt', hstmt', heq⟩ := Option.map_eq_some_iff.mp hstmt
          have hrest := (List.cons.inj heq).2
          rw [hrest] at hstmt'
          exact List.forall_mem_cons.mpr ⟨⟨hne, hname⟩, ih hnext' hstmt'⟩

/-! ## Strings -/

theorem specialThenQuote_length (h : specialThenQuote fuel text = some rest) :
    rest.length < text.length := by
  induction fuel generalizing text with
  | zero => cases h
  | succ fuel ih =>
    unfold specialThenQuote at h
    split at h
    · have hdrop : (afterComment text).length ≤ text.length := (List.dropWhile_suffix _).length_le
      split at h
      · cases h
      · next c rest' hcomment =>
        have hrest := ih h
        rw [hcomment, List.length_cons] at hdrop
        omega
    · split at h
      · cases h
      · next c rest' =>
        rw [List.length_cons]
        split at h
        · exact Nat.lt_succ_of_lt (ih h)
        · split at h
          · cases h
            omega
          · cases h

theorem quotecontinue_length (h : quotecontinue fuel text = some rest) :
    rest.length < text.length := by
  induction fuel generalizing text with
  | zero => cases h
  | succ fuel ih =>
    unfold quotecontinue at h
    split at h
    · have hdrop : (afterComment text).length ≤ text.length := (List.dropWhile_suffix _).length_le
      exact Nat.lt_of_lt_of_le (ih h) hdrop
    · split at h
      · cases h
      · next c rest' =>
        rw [List.length_cons]
        split at h
        · exact Nat.lt_succ_of_lt (specialThenQuote_length h)
        · split at h
          · exact Nat.lt_succ_of_lt (ih h)
          · cases h

/-- The characters that take two characters of the text, or more. -/
def doubles (scs : Bool) (str : Bytes) : Nat := str.countP fun c => c == quote || (!scs && c == backslash)

theorem scanXq_length (h : scanXq fuel text = some (lit, rest)) :
    lit.length + doubles true lit + 1 + rest.length ≤ text.length := by
  induction fuel generalizing text lit with
  | zero => cases h
  | succ fuel ih =>
    cases text with
    | nil => cases h
    | cons c text =>
      rw [scanXq] at h
      rw [List.length_cons]
      split at h
      · split at h
        · next hquote =>
          obtain ⟨⟨lit', rest'⟩, hscan, hpair⟩ := Option.map_eq_some_iff.mp h
          cases hpair
          have hrest := ih hscan
          obtain ⟨tail, rfl⟩ : ∃ tail, text = quote :: tail := List.head?_eq_some_iff.mp hquote
          simp only [doubles, List.countP_cons, List.length_cons, List.tail_cons, id] at hrest ⊢
          split <;> omega
        · split at h
          · next hcontinue =>
            have hrest := ih h
            have hlength := quotecontinue_length hcontinue
            omega
          · cases h
            simp only [doubles, List.countP_nil, List.length_nil]
            omega
      · next hc =>
        obtain ⟨⟨lit', rest'⟩, hscan, hpair⟩ := Option.map_eq_some_iff.mp h
        cases hpair
        have hrest := ih hscan
        simp only [doubles, List.countP_cons, List.length_cons, id] at hrest ⊢
        rw [if_neg (by simpa using hc)]
        omega

theorem hexval_lt {c : UInt8} (h : isHex c = true) : hexval c < 16 := by
  simp only [isHex, isDigit, Bool.or_eq_true, Bool.and_eq_true, decide_eq_true_eq, UInt8.le_iff_toNat_le] at h
  simp only [hexval, isDigit, Bool.and_eq_true, decide_eq_true_eq, UInt8.le_iff_toNat_le]
  change ((48 ≤ c.toNat ∧ c.toNat ≤ 57) ∨ (97 ≤ c.toNat ∧ c.toNat ≤ 102)) ∨
    (65 ≤ c.toNat ∧ c.toNat ≤ 70) at h
  change (if 48 ≤ c.toNat ∧ c.toNat ≤ 57 then c.toNat - 48
    else if 97 ≤ c.toNat then c.toNat - 97 + 10 else c.toNat - 65 + 10) < 16
  split
  · omega
  · split <;> omega

theorem strtoul_lt {digits : Bytes} (h : digits.all isHex = true) (n : Nat) :
    digits.foldl (fun n c => 16 * n + hexval c) n < 16 ^ digits.length * (n + 1) := by
  induction digits generalizing n with
  | nil => simp
  | cons c digits ih =>
    obtain ⟨hc, hdigits⟩ := Bool.and_eq_true_iff.mp h
    have hval := hexval_lt hc
    calc digits.foldl (fun n c => 16 * n + hexval c) (16 * n + hexval c)
        < 16 ^ digits.length * (16 * n + hexval c + 1) := ih hdigits _
      _ ≤ 16 ^ digits.length * (16 * (n + 1)) := Nat.mul_le_mul_left _ (by omega)
      _ = 16 ^ (c :: digits).length * (n + 1) := by rw [List.length_cons, Nat.pow_succ, Nat.mul_assoc]

/-- What `\u` and `\U` take after the backslash. -/
theorem xeunicode_length {value : Nat} (h : xeunicode text = some (value, rest)) :
    (value < 65536 ∧ rest.length + 5 ≤ text.length) ∨ rest.length + 9 ≤ text.length := by
  cases text with
  | nil => cases h
  | cons c text =>
    rw [xeunicode] at h
    generalize hlen : (if c = 117 then 4 else 8) = len at h
    by_cases hescape : (c = 117 ∨ c = 85) ∧ (text.take len).length = len ∧
        (text.take len).all isHex = true
    · rw [if_pos hescape] at h
      obtain ⟨-, hlength, hhex⟩ := hescape
      cases h
      have hvalue := strtoul_lt hhex 0
      rw [hlength] at hvalue
      rw [List.length_take] at hlength
      rw [List.length_cons, List.length_drop]
      split at hlen
      · subst hlen
        exact .inl ⟨hvalue, by omega⟩
      · exact .inr (by omega)
    · rw [if_neg hescape] at h
      cases h

theorem unicodeEscape_length {value : Nat} (h : unicodeEscape text = some (value, rest)) :
    (value < 65536 ∧ rest.length + 5 ≤ text.length) ∨ rest.length + 9 ≤ text.length := by
  unfold unicodeEscape at h
  split at h
  · cases h
  · next c first hfirst =>
    have hlength := xeunicode_length hfirst
    split at h
    · split at h
      · next d tail =>
        split at h
        · next c' second hsecond =>
          split at hsecond
          · have hlength' := xeunicode_length hsecond
            rw [List.length_cons] at hlength
            split at h
            · cases h
              exact .inr (by omega)
            · cases h
          · cases hsecond
        · cases h
      · cases h
    · split at h
      · cases h
      · cases h
        exact hlength

theorem length_unicodeToUtf8 (c : Nat) : (unicodeToUtf8 c).length ≤ if c < 65536 then 3 else 4 := by
  unfold unicodeToUtf8
  split
  · split <;> simp
  · split
    · split <;> simp
    · split
      · split <;> simp
      · rw [if_neg (by omega)]
        simp

/-- An escape takes two characters, or more, for what it stands for. -/
theorem escape_length {c : UInt8} {bytes : Bytes} {saw : Bool}
    (h : escape s (c :: text) = some (bytes, saw, rest)) :
    bytes.length + doubles false bytes + rest.length ≤ text.length + 2 := by
  have hdoubles : doubles false bytes ≤ bytes.length := List.countP_le_length
  have hone : bytes.length = 1 → rest.length ≤ text.length →
      bytes.length + doubles false bytes + rest.length ≤ text.length + 2 := by omega
  rw [escape] at h
  split at h
  · cases h
    refine hone rfl ?_
    rw [List.length_drop, List.length_cons]
    simp only [List.length_cons]
    omega
  · split at h
    · cases h
      refine hone rfl ?_
      rw [List.length_drop]
      omega
    · split at h
      · split at h
        · next value after hescape =>
          have hlength := unicodeEscape_length hescape
          split at h
          · cases h
            have hutf8 := length_unicodeToUtf8 value
            rw [List.length_cons] at hlength
            split at hutf8 <;> omega
          · cases h
        · cases h
      · cases h
        exact hone rfl (Nat.le_refl _)

theorem scanXe_length {saw : Bool} (h : scanXe s fuel text = some (lit, saw, rest)) :
    lit.length + doubles false lit + 1 + rest.length ≤ text.length := by
  induction fuel generalizing text lit saw with
  | zero => cases h
  | succ fuel ih =>
    cases text with
    | nil => cases h
    | cons c text =>
      rw [scanXe] at h
      rw [List.length_cons]
      split at h
      · split at h
        · next hquote =>
          obtain ⟨⟨lit', saw', rest'⟩, hscan, hpair⟩ := Option.map_eq_some_iff.mp h
          cases hpair
          have hrest := ih hscan
          obtain ⟨tail, rfl⟩ : ∃ tail, text = quote :: tail := List.head?_eq_some_iff.mp hquote
          simp only [doubles, List.countP_cons, List.length_cons, List.tail_cons] at hrest ⊢
          split <;> omega
        · split at h
          · next hcontinue =>
            have hrest := ih h
            have hlength := quotecontinue_length hcontinue
            omega
          · cases h
            simp only [doubles, List.countP_nil, List.length_nil]
            omega
      · next hquote =>
        split at h
        · split at h
          · next bytes saw' after hescape =>
            obtain ⟨⟨lit', saw'', rest'⟩, hscan, hpair⟩ := Option.map_eq_some_iff.mp h
            cases hpair
            have hrest := ih hscan
            obtain _ | ⟨c', text⟩ := text
            · cases hescape
              cases fuel <;> cases hscan
            · have hlength := escape_length hescape
              simp only [doubles, List.countP_append, List.length_append, List.length_cons, id]
                at hlength hrest ⊢
              omega
          · cases h
        · next hback =>
          obtain ⟨⟨lit', saw', rest'⟩, hscan, hpair⟩ := Option.map_eq_some_iff.mp h
          cases hpair
          have hrest := ih hscan
          simp only [doubles, List.countP_cons, List.length_cons] at hrest ⊢
          rw [if_neg (by simpa using And.intro hquote hback)]
          omega

theorem scanString_length (h : scanString s text = some (.sconst lit, rest)) :
    lit.length + doubles s.standardConformingStrings lit + 1 + rest.length ≤ text.length := by
  unfold scanString at h
  cases hscs : s.standardConformingStrings with
  | true =>
    rw [hscs, if_pos rfl] at h
    obtain ⟨⟨lit', rest'⟩, hscan, hpair⟩ := Option.map_eq_some_iff.mp h
    cases hpair
    exact scanXq_length hscan
  | false =>
    rw [hscs, if_neg Bool.false_ne_true] at h
    split at h
    · next hscan =>
      split at h
      · cases h
      · cases h
        exact scanXe_length hscan
    · cases h

theorem doubles_eq_zero {scs : Bool} :
    doubles scs name = 0 ↔ quote ∉ name ∧ (scs = true ∨ backslash ∉ name) := by
  rw [doubles, List.countP_eq_zero]
  constructor
  · intro h
    refine ⟨fun hquote => h _ hquote rfl, ?_⟩
    cases scs with
    | true => exact .inl rfl
    | false => exact .inr fun hback => h _ hback rfl
  · intro ⟨hquote, hback⟩ c hc hdouble
    obtain heq | ⟨hscs, heq⟩ : c = quote ∨ scs = false ∧ c = backslash := by simpa using hdouble
    · exact hquote (heq ▸ hc)
    · obtain htrue | hnot := hback
      · rw [hscs] at htrue
        cases htrue
      · exact hnot (heq ▸ hc)

theorem scanXq_plain (h : quote ∉ name) (hfuel : name.length < fuel) :
    scanXq fuel (name ++ [quote]) = some (name, []) := by
  induction name generalizing fuel with
  | nil =>
    cases fuel with
    | zero => exact absurd hfuel (Nat.not_lt_zero _)
    | succ fuel => rfl
  | cons c name ih =>
    obtain ⟨hc, hname⟩ := not_or.mp (mt List.mem_cons.mpr h)
    obtain ⟨fuel, rfl⟩ : ∃ n, fuel = n + 1 := Nat.exists_eq_succ_of_ne_zero (by omega)
    rw [List.cons_append, scanXq, if_neg (Ne.symm hc), ih hname (Nat.lt_of_succ_lt_succ hfuel)]
    rfl

theorem escapeString_of_plain (hquote : quote ∉ name) (hback : backslash ∉ name) :
    escapeString name = name := by
  induction name with
  | nil => rfl
  | cons c name ih =>
    obtain ⟨hc, hname⟩ := not_or.mp (mt List.mem_cons.mpr hquote)
    obtain ⟨hc', hname'⟩ := not_or.mp (mt List.mem_cons.mpr hback)
    rw [escapeString_cons, if_neg (Ne.symm hc), if_neg (Ne.symm hc'), ih hname hname']
    rfl

theorem scanString_plain (h : doubles s.standardConformingStrings name = 0) :
    scanString s (name ++ [quote]) = some (.sconst name, []) := by
  obtain ⟨hquote, hback⟩ := doubles_eq_zero.mp h
  have hfuel : name.length < (name ++ [quote]).length + 1 := by
    rw [List.length_append]
    omega
  unfold scanString
  cases hscs : s.standardConformingStrings with
  | true =>
    rw [if_pos rfl, scanXq_plain hquote hfuel]
    rfl
  | false =>
    have hescape : escapeString name = name :=
      escapeString_of_plain hquote (hback.resolve_left (by rw [hscs]; exact Bool.false_ne_true))
    have hscan : scanXe s ((name ++ [quote]).length + 1) (name ++ [quote]) = some (name, false, []) := by
      have hxe := @scanXe_escaped s name ((name ++ [quote]).length + 1) (by rw [hescape]; exact hfuel)
      rwa [hescape] at hxe
    rw [if_neg Bool.false_ne_true, hscan]
    rfl

/-! ## Words -/

theorem lexemes_deallocate : lexemes s (fuel + 2) (ascii "DEALLOCATE " ++ rest) =
    (lexemes s fuel rest).map (words ["deallocate"] ++ ·) := rfl

theorem lexemes_set : lexemes s (fuel + 6) (ascii "SET application_name TO " ++ rest) =
    (((lexemes s fuel rest).map (.word (ascii "to") :: ·)).map (.word (ascii "application_name") :: ·)).map
      (.word (ascii "set") :: ·) := rfl

theorem lexemes_lock : lexemes s (fuel + 4) (ascii "LOCK TABLE " ++ rest) =
    ((lexemes s fuel rest).map (.word (ascii "table") :: ·)).map (.word (ascii "lock") :: ·) := rfl

theorem lexemes_mode : lexemes s (fuel + 10) (ascii " IN SHARE ROW EXCLUSIVE MODE") =
    some (words ["in", "share", "row", "exclusive", "mode"]) := by
  cases fuel <;> rfl

/-! ## Statements -/

theorem ascii_dquote : ascii "\"" = [dquote] := rfl

theorem sendDeallocate_means : Means s (sendDeallocate name) (deallocateStmt name) ↔
    name ≠ [] ∧ dquote ∉ name ∧ name.length + 14 < 2 ^ 31 := by
  by_cases hlen : name.length + 14 < 2 ^ 31
  · have hsent : sendDeallocate name =
        some (ascii "DEALLOCATE " ++ dquote :: (name ++ dquote :: [])) := by
      rw [sendDeallocate, if_pos hlen, ascii_dquote]
      rfl
    obtain ⟨fuel, hfuel⟩ : ∃ fuel, (ascii "DEALLOCATE " ++ dquote :: (name ++ dquote :: [])).length =
        fuel + 1 + 2 := ⟨name.length + 10, by simp [ascii]⟩
    rw [Means, hsent, Option.bind_some, scanned, hfuel, lexemes_deallocate]
    constructor
    · intro h
      obtain ⟨stmt, hstmt, heq⟩ := Option.map_eq_some_iff.mp h
      cases heq
      obtain ⟨rest, -, hne, hscan, -⟩ := lexemes_ident hstmt
      exact ⟨hne, (plain_of_scan [] hscan (List.append_nil _) (by simp)).1, hlen⟩
    · intro ⟨hne, hplain, _⟩
      rw [lexemes_token _ _ (lexeme_plain hne hplain (by simp))]
      cases fuel <;> rfl
  · rw [Means, sendDeallocate, if_neg hlen]
    exact iff_of_false nofun fun h => hlen h.2.2

theorem setApplicationName_means : Means s (some (setApplicationName name)) (setStmt name) ↔
    quote ∉ name ∧ (s.standardConformingStrings = true ∨ backslash ∉ name) ∧ name.length ≤ 997 := by
  have htext : setApplicationName name =
      ascii "SET application_name TO " ++ quote :: (name ++ [quote]).take 998 := by
    have hquoted : ascii "SET application_name TO '" = ascii "SET application_name TO " ++ [quote] := by
      decide
    have hlength : (ascii "SET application_name TO ").length = 24 := rfl
    rw [setApplicationName, snprintf, hquoted, List.append_assoc, List.take_append, hlength,
      List.take_of_length_le (by rw [hlength]; decide)]
    rfl
  obtain ⟨fuel, hfuel⟩ : ∃ fuel,
      (ascii "SET application_name TO " ++ quote :: (name ++ [quote]).take 998).length = fuel + 1 + 6 :=
    ⟨(ascii "SET application_name TO " ++ quote :: (name ++ [quote]).take 998).length - 7,
      by simp [ascii]⟩
  rw [Means, htext, Option.bind_some, scanned, hfuel, lexemes_set]
  constructor
  · intro h
    obtain ⟨_, h, heq⟩ := Option.map_eq_some_iff.mp h
    cases heq
    obtain ⟨_, h, heq⟩ := Option.map_eq_some_iff.mp h
    cases heq
    obtain ⟨_, h, heq⟩ := Option.map_eq_some_iff.mp h
    cases heq
    cases hscan : scanString s ((name ++ [quote]).take 998) with
    | none =>
      rw [lexemes, lexeme_quote, hscan] at h
      cases h
    | some found =>
      obtain ⟨t, rest⟩ := found
      rw [lexemes_token (.token t) rest (by rw [lexeme_quote, hscan]; rfl)] at h
      obtain ⟨stmt, -, heq⟩ := Option.map_eq_some_iff.mp h
      cases heq
      have hlength := scanString_length hscan
      rw [List.length_take, List.length_append, List.length_singleton] at hlength
      have hdoubles := doubles_eq_zero.mp (show doubles s.standardConformingStrings name = 0 by omega)
      exact ⟨hdoubles.1, hdoubles.2, by omega⟩
  · intro ⟨hquote, hback, hlength⟩
    have htake : (name ++ [quote]).take 998 = name ++ [quote] :=
      List.take_of_length_le (by rw [List.length_append, List.length_singleton]; omega)
    have hscan := scanString_plain (doubles_eq_zero.mpr ⟨hquote, hback⟩)
    rw [htake, lexemes_token (.token (.sconst name)) [] (by rw [lexeme_quote, hscan]; rfl)]
    cases fuel <;> rfl

/-! ### The lock -/

theorem table_eq_dotted (target : InsertTarget) : target.table = dotted target.names := by
  obtain ⟨catalogname, schemaname, relname⟩ := target
  have hpoint : ".".toByteArray.toList = [point] := by decide +kernel
  cases catalogname <;> cases schemaname <;>
    simp [InsertTarget.table, InsertTarget.relation, InsertTarget.names, outRangeVar, qualified, dotted,
      Piece.text, outName, hpoint]

theorem names_ne_nil (target : InsertTarget) : ∃ name names, target.names = name :: names :=
  List.exists_cons_of_ne_nil (by simp [InsertTarget.names])

/-- The names and the points between them. -/
def InsertTarget.length (target : InsertTarget) : Nat :=
  (target.names.map List.length).sum + (target.names.length - 1)

theorem filter_plain (h : dquote ∉ name) : name.filter (· ≠ dquote) = name := by
  refine List.filter_eq_self.mpr fun c hc => ?_
  have hne : c ≠ dquote := fun heq => h (heq ▸ hc)
  simpa using hne

theorem filter_dotted (h : ∀ n ∈ name :: names, dquote ∉ n) :
    ((dotted (name :: names)).filter (· ≠ dquote)).length =
      ((name :: names).map List.length).sum + names.length := by
  obtain ⟨hname, hnames⟩ := List.forall_mem_cons.mp h
  induction names generalizing name with
  | nil =>
    have hfilter : (dotted [name]).filter (· ≠ dquote) = name.filter (· ≠ dquote) := by
      simp [dotted]
    rw [hfilter, filter_plain hname]
    simp
  | cons next names ih =>
    obtain ⟨hnext, hnames'⟩ := List.forall_mem_cons.mp hnames
    have hfilter : (dotted (name :: next :: names)).filter (· ≠ dquote) =
        name.filter (· ≠ dquote) ++ point :: (dotted (next :: names)).filter (· ≠ dquote) := by
      simp [dotted, show ¬point = dquote by decide]
    rw [hfilter, filter_plain hname, List.length_append, List.length_cons, ih hnames hnext hnames']
    simp only [List.map_cons, List.sum_cons, List.length_cons]
    omega

theorem length_dotted : (dotted (name :: names)).length =
    ((name :: names).map List.length).sum + 3 * names.length + 2 := by
  induction names generalizing name with
  | nil => simp [dotted]
  | cons next names ih =>
    rw [dotted, List.length_cons, List.length_append, List.length_cons, List.length_cons, ih]
    simp only [List.map_cons, List.sum_cons, List.length_cons]
    omega

theorem insertLock_means (target : InsertTarget) :
    Means s (insertLock target) (lockStmt target) ↔
      (∀ n ∈ target.names, n ≠ [] ∧ dquote ∉ n) ∧ target.length ≤ maxNameLen := by
  obtain ⟨name, names, hnames⟩ := names_ne_nil target
  have hcount : names.length ≤ 2 := by
    have hlength := congrArg List.length hnames
    obtain ⟨catalogname, schemaname, relname⟩ := target
    cases catalogname <;> cases schemaname <;>
      simp only [InsertTarget.names, Option.toList_none, Option.toList_some, List.length_append,
        List.length_cons, List.length_nil] at hlength <;> omega
  have htable := table_eq_dotted target
  rw [hnames] at htable
  have hrelName (h : ∀ n ∈ target.names, n ≠ [] ∧ dquote ∉ n) :
      (target.table.filter (· ≠ dquote)).length = target.length := by
    rw [hnames] at h
    rw [htable, filter_dotted fun n hn => (h n hn).2, InsertTarget.length, hnames]
    rfl
  have hspace : (ascii " IN SHARE ROW EXCLUSIVE MODE").head? ≠ some dquote := by decide
  by_cases hfit : (target.table.filter (· ≠ dquote)).length ≤ maxNameLen
  · have hsent : insertLock target = some (ascii "LOCK TABLE " ++
        (dotted (name :: names) ++ ascii " IN SHARE ROW EXCLUSIVE MODE").take 1012) := by
      have htake : snprintf (ascii "LOCK TABLE " ++
          (dotted (name :: names) ++ ascii " IN SHARE ROW EXCLUSIVE MODE")) = ascii "LOCK TABLE " ++
            (dotted (name :: names) ++ ascii " IN SHARE ROW EXCLUSIVE MODE").take 1012 := by
        rw [snprintf, List.take_append]
        rfl
      rw [insertLock, if_pos hfit, htable, htake]
    rw [Means, hsent, Option.bind_some, scanned]
    constructor
    · intro h
      obtain ⟨fuel, hfuel⟩ : ∃ fuel, (ascii "LOCK TABLE " ++ (dotted (name :: names) ++
          ascii " IN SHARE ROW EXCLUSIVE MODE").take 1012).length = fuel + 4 :=
        ⟨_, (Nat.sub_add_cancel (by simp [ascii])).symm⟩
      rw [hfuel, lexemes_lock] at h
      obtain ⟨_, h, heq⟩ := Option.map_eq_some_iff.mp h
      cases heq
      obtain ⟨_, h, heq⟩ := Option.map_eq_some_iff.mp h
      cases heq
      rw [hnames] at h
      have hplain := plain_of_lexemes hspace (List.take_append_drop 1012 _) h
      rw [← hnames] at hplain
      exact ⟨hplain, hrelName hplain ▸ hfit⟩
    · intro ⟨hplain, hlength⟩
      rw [InsertTarget.length, hnames] at hlength
      rw [hnames] at hplain
      have htext : (dotted (name :: names) ++ ascii " IN SHARE ROW EXCLUSIVE MODE").length =
          ((name :: names).map List.length).sum + 3 * names.length + 30 := by
        rw [List.length_append, length_dotted]
        rfl
      have htake := List.take_of_length_le (l := dotted (name :: names) ++
        ascii " IN SHARE ROW EXCLUSIVE MODE") (i := 1012)
        (by rw [htext]; simp only [List.length_cons, maxNameLen] at hlength; omega)
      obtain ⟨fuel, hfuel⟩ : ∃ fuel, (ascii "LOCK TABLE " ++ (dotted (name :: names) ++
          ascii " IN SHARE ROW EXCLUSIVE MODE")).length =
            fuel + 10 + (2 * names.length + 1) + 4 :=
        ⟨((name :: names).map List.length).sum + names.length + 26, by
          rw [List.length_append, htext, show (ascii "LOCK TABLE ").length = 11 from rfl]
          omega⟩
      rw [htake, hfuel, lexemes_lock, lexemes_dotted hplain hspace, lexemes_mode, lockStmt, hnames]
      rfl
  · rw [Means, insertLock, if_neg hfit]
    exact iff_of_false nofun fun ⟨hplain, hlength⟩ => hfit (hrelName hplain ▸ hlength)

/-- What the statements mean, for all names. -/
theorem composed_iff (s : Settings) (stmtName applicationName : Bytes) (target : InsertTarget) :
    (Means s (sendDeallocate stmtName) (deallocateStmt stmtName) ∧
      Means s (some (setApplicationName applicationName)) (setStmt applicationName) ∧
      Means s (insertLock target) (lockStmt target)) ↔
      (stmtName ≠ [] ∧ dquote ∉ stmtName ∧ stmtName.length + 14 < 2 ^ 31) ∧
      (quote ∉ applicationName ∧ (s.standardConformingStrings = true ∨ backslash ∉ applicationName) ∧
        applicationName.length ≤ 997) ∧
      (∀ name ∈ target.names, name ≠ [] ∧ dquote ∉ name) ∧ target.length ≤ maxNameLen :=
  and_congr sendDeallocate_means (and_congr setApplicationName_means (insertLock_means target))

/-- The name `x"; DROP TABLE t; --` ends the statement, and begins another one. -/
theorem not_means_quote : scanned ⟨true, true, fun _ => true⟩
      ((sendDeallocate (ascii "x\"; DROP TABLE t; --")).getD []) =
        some (deallocateStmt (ascii "x") ++ .token (.char 59) :: words ["drop", "table", "t"] ++
          [.token (.char 59)]) ∧
    ¬Means ⟨true, true, fun _ => true⟩ (sendDeallocate (ascii "x\"; DROP TABLE t; --"))
      (deallocateStmt (ascii "x\"; DROP TABLE t; --")) := by
  unfold Means
  exact ⟨by decide, by decide⟩

end

end PgPool.Deparse
