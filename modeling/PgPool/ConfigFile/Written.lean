import PgPool.ConfigFile.Printed

/-!
# A configuration file that is written

A file that gives settings, lists and backends their values, a line for each and with comments, is read as
it was written.
-/

namespace PgPool.ConfigFile

open Pcp.Codec (Bytes ascii digitChar strtol clamp)

/-! ## Lines -/

/-- A value as it is written. -/
def Value.show : Value → Token × Bytes
  | .flag b => (.key, ascii (if b then "on" else "off"))
  | .number n => (.integer, Pcp.Codec.decimal n)
  | .text s => (.string, 39 :: (s ++ [39]))

/-- What a line gives a value to. -/
inductive Entry where
  | setting (s : Setting) (v : Value)
  | replicationMode (b : Bool)
  | masterSlaveMode (b : Bool)
  | resetQueryList (l : List Bytes)
  | whiteFunctionList (l : List Bytes)
  | blackFunctionList (l : List Bytes)
  | hostname (slot : Nat) (host : Bytes)
  | port (slot : Nat) (n : Int32)
  | weight (slot n : Nat)
  | dataDirectory (slot : Nat) (dir : Bytes)
  | flag (slot : Nat) (disallow : Bool)

namespace Entry

def key : Entry → Bytes
  | setting s _ => ascii s.name
  | replicationMode _ => ascii "replication_mode"
  | masterSlaveMode _ => ascii "master_slave_mode"
  | resetQueryList _ => ascii "reset_query_list"
  | whiteFunctionList _ => ascii "white_function_list"
  | blackFunctionList _ => ascii "black_function_list"
  | hostname slot _ => ascii "backend_hostname" ++ Pcp.Codec.decimal slot
  | port slot _ => ascii "backend_port" ++ Pcp.Codec.decimal slot
  | weight slot _ => ascii "backend_weight" ++ Pcp.Codec.decimal slot
  | dataDirectory slot _ => ascii "backend_data_directory" ++ Pcp.Codec.decimal slot
  | flag slot _ => ascii "backend_flag" ++ Pcp.Codec.decimal slot

def value : Entry → Value
  | setting _ v => v
  | replicationMode b | masterSlaveMode b => .flag b
  | resetQueryList l => .text ([59].intercalate l)
  | whiteFunctionList l | blackFunctionList l => .text ([44].intercalate l)
  | hostname _ host => .text host
  | port _ n => .number n.toInt
  | weight _ n => .number n
  | dataDirectory _ dir => .text dir
  | flag _ disallow => .text (ascii (if disallow then "DISALLOW_TO_FAILOVER" else "ALLOW_TO_FAILOVER"))

/-- What the entry means at the start of the program. -/
def assign {W : Type} (env : Env W) (cfg : Config W) : Entry → Config W
  | setting s v => cfg.set s.name v
  | replicationMode b => cfg.set "replication_mode" (.flag b)
  | masterSlaveMode b => cfg.set "master_slave_mode" (.flag b)
  | resetQueryList l => { cfg with resetQueryList := l }
  | whiteFunctionList l => ({ cfg with whiteFunctionList := l } : Config W).addRegexPatterns env .white l
  | blackFunctionList l => ({ cfg with blackFunctionList := l } : Config W).addRegexPatterns env .black l
  | hostname slot host => cfg.setBackend slot { cfg.backends slot with hostname := host }
  | port slot n => cfg.setBackend slot { cfg.backends slot with port := n.toInt, status := .connectWait }
  | weight slot n => cfg.setBackend slot { cfg.backends slot with weight := env.atof (Pcp.Codec.decimal n) }
  | dataDirectory slot dir => cfg.setBackend slot { cfg.backends slot with dataDirectory := dir }
  | flag slot disallow => cfg.setBackend slot { cfg.backends slot with flag := disallow }

end Entry

/-- A number that the variable of a setting holds. -/
def Kind.Holds : Kind → Value → Prop
  | .number _, .number n => ∃ m : Int32, m.toInt = n
  | .bigNumber _, .number n => ∃ m : Int64, m.toInt = n
  | _, _ => True

/-- A list that a string with one delimiter holds. -/
def Separable (delimi : UInt8) (l : List Bytes) : Prop :=
  l.length ≤ 1024 ∧ ∀ s ∈ l, s ≠ [] ∧ delimi ∉ s

/-- An entry that can be written and is not refused: a string holds its text, a variable its number, and
only one of the two modes is on. -/
def Entry.Ok {W : Type} (env : Env W) (cfg : Config W) : Entry → Prop
  | setting s v => s ∈ settings ∧ s.kind.Accepts v ∧ s.kind.Holds v
  | replicationMode b => b = true → cfg.isOn "master_slave_mode" = false
  | masterSlaveMode b => b = true → cfg.isOn "replication_mode" = false
  | resetQueryList l => Separable 59 l
  | whiteFunctionList l | blackFunctionList l => Separable 44 l
  | hostname slot host => slot < maxNumBackends ∧ host.length < 128
  | port slot _ | flag slot _ => slot < maxNumBackends
  | weight slot n => slot < maxNumBackends ∧ env.negative (env.atof (Pcp.Codec.decimal n)) = false
  | dataDirectory slot dir => slot < maxNumBackends ∧ dir.length < 256

/-- A line: an entry or nothing, and a comment or nothing. -/
structure Line where
  entry : Option Entry
  comment : Option Bytes

def Value.Quotable : Value → Prop
  | .text s => ConfigFile.Quotable s
  | _ => True

/-- The end of a line, with its comment. -/
def lineEnd : Option Bytes → Bytes
  | none => [10]
  | some text => 32 :: 35 :: (text ++ [10])

def Line.print (line : Line) : Bytes :=
  match line.entry with
  | none => lineEnd line.comment
  | some e => e.key ++ 32 :: 61 :: 32 :: (e.value.show.2 ++ lineEnd line.comment)

def printed (lines : List Line) : Bytes := lines.flatMap Line.print

section

variable {W : Type} (env : Env W)

def Line.assign (cfg : Config W) (line : Line) : Config W :=
  match line.entry with
  | none => cfg
  | some e => e.assign env cfg

/-- What the lines mean, one after the other. -/
def written (lines : List Line) (cfg : Config W) : Config W := lines.foldl (Line.assign env) cfg

def Line.Ok (cfg : Config W) (line : Line) : Prop :=
  (∀ text ∈ line.comment, 10 ∉ text) ∧ ∀ e ∈ line.entry, e.Ok env cfg ∧ e.value.Quotable

/-- Every line can be written and is not refused when it is its turn. -/
def Writable : List Line → Config W → Prop
  | [], _ => True
  | line :: lines, cfg => line.Ok env cfg ∧ Writable lines (line.assign env cfg)

end

/-! ## The tokens of a line -/

/-- A word begins with a letter. -/
def isWord : Bytes → Bool
  | [] => false
  | c :: w => isLetter c && w.all isLetterOrDigit

theorem isWord_append {a b : Bytes} (ha : isWord a = true) (hb : b.all isLetterOrDigit = true) :
    isWord (a ++ b) = true := by
  cases a with
  | nil => simp [isWord] at ha
  | cons c w =>
    rw [isWord, Bool.and_eq_true] at ha
    simp [isWord, ha.1, List.all_append, ha.2, hb]

theorem all_decimal (n : Nat) : (Pcp.Codec.decimal n).all isLetterOrDigit = true := by
  obtain ⟨c, w, htext, hc, hw⟩ := text_digits n
  have hdecimal : Pcp.Codec.decimal n = c :: w := by
    rw [Pcp.Codec.decimal, if_neg (by omega), Int.natAbs_natCast, htext]
  rw [hdecimal, List.all_cons, isLetterOrDigit, hc, Bool.or_true, Bool.true_and, List.all_eq_true]
  intro x hx
  rw [isLetterOrDigit, hw x hx, Bool.or_true]

theorem isWord_name {s : Setting} (hs : s ∈ settings) : isWord (ascii s.name) = true := by
  have hall : ∀ s ∈ settings, isWord (ascii s.name) = true := by decide +kernel
  exact hall s hs

theorem isWord_key {W : Type} {env : Env W} {cfg : Config W} {e : Entry} (hok : e.Ok env cfg) :
    isWord e.key = true := by
  cases e with
  | setting s v => exact isWord_name hok.1
  | replicationMode | masterSlaveMode | resetQueryList | whiteFunctionList | blackFunctionList => rfl
  | hostname slot | port slot | weight slot | dataDirectory slot | flag slot =>
    exact isWord_append (by decide) (all_decimal slot)

theorem tokens_word {word rest : Bytes} {d : UInt8} (hword : isWord word = true) (hd : d = 32 ∨ d = 10) :
    tokens (word ++ d :: rest) = (.key, word) :: tokens (d :: rest) := by
  cases word with
  | nil => simp [isWord] at hword
  | cons c w =>
    rw [isWord, Bool.and_eq_true, List.all_eq_true] at hword
    exact tokens_key hword.1 hword.2 hd

/-- The end of a line begins with a blank or is one. -/
theorem lineEnd_cons (comment : Option Bytes) (rest : Bytes) :
    ∃ d s, lineEnd comment ++ rest = d :: s ∧ (d = 32 ∨ d = 10) := by
  cases comment with
  | none => exact ⟨10, rest, rfl, .inr rfl⟩
  | some text => exact ⟨32, 35 :: (text ++ [10] ++ rest), rfl, .inl rfl⟩

theorem tokens_lineEnd {comment : Option Bytes} (hcomment : ∀ text ∈ comment, 10 ∉ text) (rest : Bytes) :
    tokens (lineEnd comment ++ rest) = (.eol, [10]) :: tokens rest := by
  cases comment with
  | none => exact tokens_eol rest
  | some text =>
    have hline : lineEnd (some text) ++ rest = 32 :: 35 :: (text ++ 10 :: rest) := by
      simp [lineEnd]
    rw [hline, tokens_blank rfl, tokens_comment (hcomment text rfl), tokens_eol]

theorem tokens_blank_word {word rest : Bytes} {d : UInt8} (hword : isWord word = true)
    (hd : d = 32 ∨ d = 10) :
    tokens (32 :: (word ++ d :: rest)) = (.key, word) :: tokens (d :: rest) := by
  rw [← tokens_word hword hd]
  cases word with
  | nil => simp [isWord] at hword
  | cons c w =>
    rw [isWord, Bool.and_eq_true] at hword
    exact tokens_blank (not_of_isLetter hword.1).2.1

theorem tokens_show {v : Value} (hv : v.Quotable) {d : UInt8} (hd : d = 32 ∨ d = 10) (rest : Bytes) :
    tokens (32 :: (v.show.2 ++ d :: rest)) = v.show :: tokens (d :: rest) := by
  cases v with
  | flag b =>
    have hword : isWord (Value.flag b).show.2 = true := by
      cases b <;> rfl
    exact tokens_blank_word hword hd
  | number n =>
    change tokens (32 :: (Pcp.Codec.decimal n ++ d :: rest)) =
      (.integer, Pcp.Codec.decimal n) :: tokens (d :: rest)
    rw [← tokens_number n hd rest]
    obtain ⟨c, w, htext, hc, -⟩ := text_digits n.natAbs
    rw [Pcp.Codec.decimal, htext]
    split
    · exact tokens_blank rfl
    · exact tokens_blank (not_of_isDigit hc).2.1
  | text s =>
    have hread := tokens_string hv (d :: rest)
    rw [List.cons_append] at hread
    have hshow : (Value.text s).show.2 ++ d :: rest = 39 :: (s ++ [39] ++ d :: rest) := rfl
    rw [hshow, tokens_blank rfl, hread]
    rfl

/-- An entry is read as a key, an equals sign and a value. -/
theorem tokens_print {e : Entry} (hkey : isWord e.key = true) (hvalue : e.value.Quotable)
    {comment : Option Bytes} (hcomment : ∀ text ∈ comment, 10 ∉ text) (rest : Bytes) :
    tokens (Line.print ⟨some e, comment⟩ ++ rest) =
      (.key, e.key) :: (.equals, [61]) :: e.value.show :: (.eol, [10]) :: tokens rest := by
  obtain ⟨d, s, hend, hd⟩ := lineEnd_cons comment rest
  have hline : Line.print ⟨some e, comment⟩ ++ rest = e.key ++ 32 :: 61 :: 32 :: (e.value.show.2 ++ d :: s) := by
    simp [Line.print, hend]
  rw [hline, tokens_word hkey (.inl rfl), tokens_blank rfl, tokens_equals, tokens_show hvalue hd, ← hend,
    tokens_lineEnd hcomment]

/-! ## What the entries do -/

theorem atoi_decimal (n : Int32) : atoi (Pcp.Codec.decimal n.toInt) = n.toInt := by
  have hlow := Int32.le_toInt n
  have hhigh := Int32.toInt_lt n
  have hread : strtol ((Pcp.Codec.decimal n.toInt).take ((Pcp.Codec.decimal n.toInt).length + 1)) = n.toInt :=
    (Pcp.Codec.strtol_take (by omega) n.toInt).2.2 (by omega)
  rw [List.take_of_length_le (by omega)] at hread
  have hclamp : clamp n.toInt = n.toInt := by
    unfold clamp
    omega
  rw [atoi, hread, hclamp, Int32.ofInt_toInt]

theorem atol_decimal (n : Int64) : atol (Pcp.Codec.decimal n.toInt) = n.toInt := by
  have hlow := Int64.le_toInt n
  have hhigh := Int64.toInt_lt n
  have hread : strtol ((Pcp.Codec.decimal n.toInt).take ((Pcp.Codec.decimal n.toInt).length + 1)) = n.toInt :=
    (Pcp.Codec.strtol_take (by omega) n.toInt).2.2 (by omega)
  rw [List.take_of_length_le (by omega)] at hread
  have hclamp : clamp n.toInt = n.toInt := by
    unfold clamp
    omega
  rw [atol, hread, hclamp, Int64.ofInt_toInt]

theorem atoi_slot {slot : Nat} (h : slot < maxNumBackends) : atoi (Pcp.Codec.decimal slot) = slot := by
  have hslot : slot < 128 := h
  have hint : (Int32.ofInt slot).toInt = slot := Int32.toInt_ofInt_of_le (by omega) (by omega)
  rw [← hint, atoi_decimal]

theorem extractString_show (s : Bytes) : extractString (Value.text s).show.2 .string = s := by
  have hlast : (39 :: s ++ [39]).dropLast = 39 :: s := List.dropLast_concat
  rw [List.cons_append] at hlast
  rw [extractString, if_pos rfl, Value.show, hlast, List.tail_cons]

theorem evalLogical_show (b : Bool) : evalLogical (Value.flag b).show.2 = some b := by
  cases b <;> decide

theorem readValue_show {kind : Kind} {v : Value} (haccepts : kind.Accepts v) (hholds : kind.Holds v) :
    readValue v.show.1 v.show.2 kind = some v := by
  cases kind with
  | logical =>
    cases v with
    | flag b => rw [readValue, evalLogical_show, Option.map_some]
    | number | text => exact haccepts.elim
  | number least =>
    cases v with
    | number n =>
      obtain ⟨m, rfl⟩ := hholds
      have hle : least ≤ m.toInt := haccepts
      simp [readValue, Value.show, atoi_decimal, hle]
    | flag | text => exact haccepts.elim
  | bigNumber least =>
    cases v with
    | number n =>
      obtain ⟨m, rfl⟩ := hholds
      have hle : least ≤ m.toInt := haccepts
      simp [readValue, Value.show, atol_decimal, hle]
    | flag | text => exact haccepts.elim
  | text =>
    cases v with
    | text s =>
      have htoken : isText (Value.text s).show.1 = true := rfl
      rw [readValue, if_pos htoken]
      exact congrArg (fun s => some (Value.text s)) (extractString_show s)
    | flag | number => exact haccepts.elim
  | oneOf values =>
    cases v with
    | text s =>
      have hmem : s ∈ values.map ascii := haccepts
      have htoken : isText (Value.text s).show.1 = true := rfl
      have hread : extractString (Value.text s).show.2 (Value.text s).show.1 = s := extractString_show s
      rw [readValue, hread, if_pos (Bool.and_eq_true_iff.2 ⟨htoken, List.contains_iff_mem.2 hmem⟩)]
    | flag | number => exact haccepts.elim

theorem extractStringTokens_intercalate {delimi : UInt8} {l : List Bytes} (h : Separable delimi l) :
    extractStringTokens ([delimi].intercalate l) delimi = l := by
  obtain ⟨hlength, hall⟩ := h
  have hfilter : l.filter (· ≠ []) = l :=
    List.filter_eq_self.2 fun s hs => by simpa using (hall s hs).1
  cases l with
  | nil => rfl
  | cons s l =>
    have hsplit := List.splitOn_intercalate delimi (fun s hs => (hall s hs).2) (List.cons_ne_nil s l)
    rw [List.splitOn] at hsplit
    rw [extractStringTokens, hsplit, hfilter, List.take_of_length_le hlength]

theorem flagLoop_show (disallow : Bool) :
    flagLoop (extractStringTokens
      (ascii (if disallow then "DISALLOW_TO_FAILOVER" else "ALLOW_TO_FAILOVER")) 124) false false false =
      some disallow := by
  cases disallow <;> decide +kernel

section

variable {W : Type} {env : Env W} {cfg : Config W}

theorem ascii_injective {s s' : Setting} (hs : s ∈ settings) (hs' : s' ∈ settings)
    (h : ascii s.name = ascii s'.name) : s.name = s'.name := by
  have hall : ∀ s ∈ settings, ∀ s' ∈ settings, ascii s.name = ascii s'.name → s.name = s'.name := by
    decide +kernel
  exact hall s hs s' hs' h

theorem find_setting (hinit : env.context = .initConfig) {s : Setting} (hs : s ∈ settings) :
    ∃ s', settings.find? (fun t => ascii t.name == ascii s.name && (env.context == .initConfig || t.reload)) =
      some s' ∧ s'.name = s.name ∧ s'.kind = s.kind := by
  have hsome : (settings.find? fun t =>
      ascii t.name == ascii s.name && (env.context == .initConfig || t.reload)).isSome = true :=
    List.find?_isSome.2 ⟨s, hs, by simp [hinit]⟩
  obtain ⟨s', hfind⟩ := Option.isSome_iff_exists.1 hsome
  have hs' := List.mem_of_find?_eq_some hfind
  have htest := List.find?_some hfind
  rw [Bool.and_eq_true, beq_iff_eq] at htest
  have hname := ascii_injective hs' hs htest.1
  exact ⟨s', hfind, hname, (kind_eq_of_name hs' hs hname).1⟩

theorem find_none (env : Env W) {key : Bytes} (h : ∀ s ∈ settings, ascii s.name ≠ key) :
    settings.find? (fun t => ascii t.name == key && (env.context == .initConfig || t.reload)) = none := by
  rw [List.find?_eq_none]
  intro s hs
  simp [h s hs]

/-- The keys that `handle` tests for itself, and those of `handleList`. -/
def modeKeys : List String := ["allow_inet_domain_socket", "replication_mode", "master_slave_mode"]
def listKeys : List String := ["reset_query_list", "white_function_list", "black_function_list"]

def backendKeys : List String :=
  ["backend_hostname", "backend_port", "backend_weight", "backend_data_directory", "backend_flag"]

theorem find_modeKey (env : Env W) {key : String} (hkey : key ∈ modeKeys) :
    settings.find? (fun t => ascii t.name == ascii key && (env.context == .initConfig || t.reload)) = none := by
  have hall : ∀ key ∈ modeKeys, ∀ s ∈ settings, ascii s.name ≠ ascii key := by decide +kernel
  exact find_none env (hall key hkey)

theorem handle_other {key : Bytes} (h : ∀ other ∈ settings.map Setting.name ++ modeKeys, ascii other ≠ key)
    (token : Token) (yytext : Bytes) :
    handle env cfg token yytext key = handleList env cfg token yytext key := by
  have hnone := find_none env fun s hs => h s.name (List.mem_append_left _ (List.mem_map_of_mem hs))
  have hmode : ∀ other ∈ modeKeys, key ≠ ascii other := fun other hother =>
    (h other (List.mem_append_right _ hother)).symm
  simp only [modeKeys, List.mem_cons, List.not_mem_nil, or_false, forall_eq_or_imp, forall_eq] at hmode
  obtain ⟨hsocket, hreplication, hmaster⟩ := hmode
  rw [handle, hnone]
  simp only [hsocket, hreplication, hmaster, false_and, if_false]

theorem handle_listKey {key : String} (hkey : key ∈ listKeys) (token : Token) (yytext : Bytes) :
    handle env cfg token yytext (ascii key) = handleList env cfg token yytext (ascii key) := by
  have hall : ∀ key ∈ listKeys, ∀ other ∈ settings.map Setting.name ++ modeKeys,
      ascii other ≠ ascii key := by decide +kernel
  exact handle_other (hall key hkey) token yytext

theorem isPrefixOf_append {a b : Bytes} (rest : Bytes) (hab : a.isPrefixOf b = false)
    (hba : b.isPrefixOf a = false) : a.isPrefixOf (b ++ rest) = false := by
  rw [Bool.eq_false_iff]
  intro h
  obtain hpre | hpre := List.prefix_or_prefix_of_prefix (List.isPrefixOf_iff_prefix.1 h)
    (List.prefix_append b rest)
  · exact Bool.false_ne_true (hab.symm.trans (List.isPrefixOf_iff_prefix.2 hpre))
  · exact Bool.false_ne_true (hba.symm.trans (List.isPrefixOf_iff_prefix.2 hpre))

/-- No key of a backend begins with another one of them. -/
theorem isPrefixOf_backendKey {other key : String} (rest : Bytes) (hother : other ∈ backendKeys)
    (hkey : key ∈ backendKeys) : (ascii other).isPrefixOf (ascii key ++ rest) = decide (other = key) := by
  have hall : ∀ other ∈ backendKeys, ∀ key ∈ backendKeys, other ≠ key →
      (ascii other).isPrefixOf (ascii key) = false := by decide
  by_cases heq : other = key
  · rw [heq, decide_eq_true rfl]
    exact List.isPrefixOf_iff_prefix.2 (List.prefix_append ..)
  · rw [decide_eq_false heq]
    exact isPrefixOf_append rest (hall other hother key hkey heq)
      (hall key hkey other hother (Ne.symm heq))

/-- A key of a backend is none of the others, whatever follows its name. -/
theorem handle_backendKey (hparent : env.isParent = true) {key : String} (hkey : key ∈ backendKeys)
    (token : Token) (yytext rest : Bytes) :
    handle env cfg token yytext (ascii key ++ rest) =
      handleBackend env cfg token yytext (ascii key ++ rest) := by
  have hall : ∀ key ∈ backendKeys, ∀ other ∈ settings.map Setting.name ++ modeKeys ++ listKeys,
      (ascii key).isPrefixOf (ascii other) = false := by decide +kernel
  have hne : ∀ other ∈ settings.map Setting.name ++ modeKeys ++ listKeys, ascii other ≠ ascii key ++ rest := by
    intro other hother heq
    have hpre := List.isPrefixOf_iff_prefix.2 (List.prefix_append (ascii key) rest)
    rw [← heq, hall key hkey other hother] at hpre
    exact Bool.false_ne_true hpre
  have hlist : ∀ other ∈ listKeys, ascii key ++ rest ≠ ascii other := fun other hother =>
    (hne other (List.mem_append_right _ hother)).symm
  simp only [listKeys, List.mem_cons, List.not_mem_nil, or_false, forall_eq_or_imp, forall_eq] at hlist
  obtain ⟨hreset, hwhite, hblack⟩ := hlist
  rw [handle_other fun other hother => hne other (List.mem_append_left _ hother)]
  simp only [handleList, hreset, hwhite, hblack, hparent, if_false, if_true]

theorem slotOf_decimal (name : String) (hname : name.length = (ascii name).length) {slot : Nat}
    (hslot : slot < maxNumBackends) : slotOf name (ascii name ++ Pcp.Codec.decimal slot) = some slot := by
  have hint : (slot : Int) < maxNumBackends := Int.ofNat_lt.2 hslot
  rw [slotOf, hname, List.drop_left, atoi_slot hslot, if_neg (by omega), Int.toNat_natCast]

/-- An entry that is not refused does what it means. -/
theorem handle_entry (hinit : env.context = .initConfig) (hparent : env.isParent = true) {e : Entry}
    (hok : e.Ok env cfg) :
    handle env cfg e.value.show.1 e.value.show.2 e.key = (e.assign env cfg, true) := by
  have htext : isText .string = true := rfl
  have hread (s : Bytes) : extractString (39 :: (s ++ [39])) .string = s := extractString_show s
  cases e with
  | setting s v =>
    obtain ⟨hs, haccepts, hholds⟩ := hok
    obtain ⟨s', hfind, hname, hkind⟩ := find_setting hinit hs
    simp only [Entry.value, Entry.key, Entry.assign, handle, hfind, hname, hkind,
      readValue_show haccepts hholds]
  | replicationMode b =>
    have hother : (cfg.set "replication_mode" (.flag b)).isOn "master_slave_mode" =
        cfg.isOn "master_slave_mode" := isOn_set_of_ne (by decide)
    have hmodes : (!(cfg.isOn "master_slave_mode" && b)) = true := by
      cases b with
      | false => simp
      | true => simp [hok rfl]
    have hkey : ascii "replication_mode" ≠ ascii "allow_inet_domain_socket" := by decide
    rw [Entry.key, handle, find_modeKey env (by decide)]
    simp only [Entry.value, Entry.assign, hkey, hinit, false_and, and_self, if_false, if_true, handleMode,
      evalLogical_show, hother, hmodes]
  | masterSlaveMode b =>
    have hother : (cfg.set "master_slave_mode" (.flag b)).isOn "replication_mode" =
        cfg.isOn "replication_mode" := isOn_set_of_ne (by decide)
    have hmodes : (!(cfg.isOn "replication_mode" && b)) = true := by
      cases b with
      | false => simp
      | true => simp [hok rfl]
    have hkey : ascii "master_slave_mode" ≠ ascii "allow_inet_domain_socket" ∧
        ascii "master_slave_mode" ≠ ascii "replication_mode" := by decide
    rw [Entry.key, handle, find_modeKey env (by decide)]
    simp only [Entry.value, Entry.assign, hkey, hinit, false_and, and_self, if_false, if_true, handleMode,
      evalLogical_show, hother, hmodes]
  | resetQueryList l =>
    rw [Entry.key, handle_listKey (by decide)]
    simp only [Entry.value, Value.show, Entry.assign, handleList, htext, if_true, hread,
      extractStringTokens_intercalate hok]
  | whiteFunctionList l =>
    have hkey : ascii "white_function_list" ≠ ascii "reset_query_list" := by decide
    rw [Entry.key, handle_listKey (by decide)]
    simp only [Entry.value, Value.show, Entry.assign, handleList, hkey, htext, if_false, if_true, hread,
      extractStringTokens_intercalate hok]
  | blackFunctionList l =>
    have hkey : ascii "black_function_list" ≠ ascii "reset_query_list" ∧
        ascii "black_function_list" ≠ ascii "white_function_list" := by decide
    rw [Entry.key, handle_listKey (by decide)]
    simp only [Entry.value, Value.show, Entry.assign, handleList, hkey, htext, if_false, if_true, hread,
      extractStringTokens_intercalate hok]
  | hostname slot host =>
    rw [Entry.key, handle_backendKey hparent (by decide)]
    simp (disch := decide) only [Entry.value, Value.show, Entry.assign, handleBackend, isPrefixOf_backendKey,
      decide_true, if_true, slotOf_decimal "backend_hostname" rfl hok.1, handleHostname, hinit, true_or,
      hread, List.take_of_length_le (Nat.le_of_lt hok.2)]
  | port slot n =>
    rw [Entry.key, handle_backendKey hparent (by decide)]
    simp (disch := decide) only [Entry.value, Value.show, Entry.assign, handleBackend, isPrefixOf_backendKey,
      String.reduceEq, decide_true, decide_false, Bool.false_eq_true, if_false, if_true,
      slotOf_decimal "backend_port" rfl hok, handlePort, hinit, atoi_decimal]
  | weight slot n =>
    rw [Entry.key, handle_backendKey hparent (by decide)]
    simp (disch := decide) only [Entry.value, Value.show, Entry.assign, handleBackend, isPrefixOf_backendKey,
      String.reduceEq, decide_true, decide_false, Bool.false_eq_true, if_false, if_true,
      slotOf_decimal "backend_weight" rfl hok.1, handleWeight, hok.2]
  | dataDirectory slot dir =>
    rw [Entry.key, handle_backendKey hparent (by decide)]
    simp (disch := decide) only [Entry.value, Value.show, Entry.assign, handleBackend, isPrefixOf_backendKey,
      String.reduceEq, decide_true, decide_false, Bool.false_eq_true, if_false, if_true,
      slotOf_decimal "backend_data_directory" rfl hok.1, handleDataDirectory, hinit, true_or, hread,
      List.take_of_length_le (Nat.le_of_lt hok.2)]
  | flag slot disallow =>
    rw [Entry.key, handle_backendKey hparent (by decide)]
    simp (disch := decide) only [Entry.value, Value.show, Entry.assign, handleBackend, isPrefixOf_backendKey,
      String.reduceEq, decide_true, decide_false, Bool.false_eq_true, if_false, if_true, handleFlag, hread,
      flagLoop_show, slotOf_decimal "backend_flag" rfl hok]

/-- A line after the other. -/
theorem load_line (hinit : env.context = .initConfig) (hparent : env.isParent = true) {line : Line}
    (hok : line.Ok env cfg) (rest : Bytes) :
    load env (tokens (line.print ++ rest)) cfg = load env (tokens rest) (line.assign env cfg) := by
  obtain ⟨entry, comment⟩ := line
  obtain ⟨hcomment, hentry⟩ := hok
  cases entry with
  | none => rw [Line.print, tokens_lineEnd hcomment, load, Line.assign]
  | some e =>
    obtain ⟨he, hvalue⟩ := hentry e rfl
    rw [tokens_print (isWord_key he) hvalue hcomment]
    rcases hshow : e.value.show with ⟨token, yytext⟩
    have hhandle := handle_entry hinit hparent he
    rw [hshow] at hhandle
    simp only [load, hhandle, Line.assign]

theorem load_printed (hinit : env.context = .initConfig) (hparent : env.isParent = true) {lines : List Line}
    (hok : Writable env lines cfg) :
    load env (tokens (printed lines)) cfg = (written env lines cfg, true) := by
  induction lines generalizing cfg with
  | nil => rfl
  | cons line lines ih =>
    rw [printed, List.flatMap_cons, load_line hinit hparent hok.1]
    exact ih hok.2

end

/-- A file that is written at the start is read as it was written: settings, lists and backends, in any
order, as often as one likes, with comments. -/
theorem printed_file {W : Type} (env : Env W) (lines : List Line) (cfg : Config W)
    (hinit : env.context = .initConfig) (hparent : env.isParent = true) (hok : Writable env lines cfg) :
    poolGetConfig env (some (printed lines)) cfg =
      (finish (written env lines cfg), if accepts env (finish (written env lines cfg)) then 0 else -1) := by
  rw [poolGetConfig, load_printed hinit hparent hok]

def replicationLines : List Line :=
  [⟨some (.setting ⟨"port", false, .number 1024⟩ (.number 5433)), some (ascii " the port")⟩,
   ⟨some (.replicationMode true), none⟩, ⟨none, none⟩, ⟨some (.hostname 0 (ascii "db")), none⟩,
   ⟨some (.port 0 5432), none⟩, ⟨some (.flag 0 true), none⟩]

example : printed replicationLines =
    ascii "port = 5433 # the port\nreplication_mode = on\n\nbackend_hostname0 = 'db'\n" ++
      ascii "backend_port0 = 5432\nbackend_flag0 = 'DISALLOW_TO_FAILOVER'\n" := by decide +kernel

theorem writable_replicationLines : Writable plainEnv replicationLines (poolInitConfig 0 []) := by
  have hport : (⟨"port", false, .number 1024⟩ : Setting) ∈ settings :=
    List.mem_cons_of_mem _ List.mem_cons_self
  refine ⟨⟨by decide +kernel, ?_⟩, ⟨by decide, ?_⟩, ⟨by decide, ?_⟩, ⟨by decide, ?_⟩, ⟨by decide, ?_⟩,
    ⟨by decide, ?_⟩, trivial⟩ <;> rintro e ⟨⟩
  · exact ⟨⟨hport, by decide, 5433, rfl⟩, trivial⟩
  · exact ⟨fun _ => by decide +kernel, trivial⟩
  · have hhost : Quotable (ascii "db") := by decide
    exact ⟨⟨Nat.zero_lt_succ _, by decide⟩, hhost⟩
  · exact ⟨Nat.zero_lt_succ _, trivial⟩
  · have hflag : Quotable (ascii "DISALLOW_TO_FAILOVER") := by decide
    exact ⟨Nat.zero_lt_succ _, hflag⟩

theorem printed_file_replication :
    (poolGetConfig plainEnv (some (printed replicationLines)) (poolInitConfig 0 [])).1.isOn
      "replication_mode" = true := by
  rw [printed_file plainEnv replicationLines (poolInitConfig 0 []) rfl rfl writable_replicationLines]
  rfl

end PgPool.ConfigFile
