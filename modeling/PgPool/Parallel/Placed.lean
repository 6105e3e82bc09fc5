import Mathlib.Data.List.TakeWhile
import PgPool.Parallel.Copy

/-!
# Where the rows of a `COPY` go

The data are rows of fields, a field a sequence of characters of which some are escaped.  What is
claimed is that the client may cut the data as it likes, and that every row goes to the node of the
value of its key; it holds where each message is a row whose key can be read as `parse_copy_data`
reads it.
-/

namespace PgPool.Parallel

/-! ## Rows -/

/-- A character of a field, or a backslash and a character. -/
inductive Atom where
  | plain (c : Char)
  | esc (c : Char)
  deriving DecidableEq

/-- A field as it is written. -/
abbrev RawField := List Atom

def Atom.raw : Atom → List Char
  | plain c => [c]
  | esc c => ['\\', c]

def rawText (f : RawField) : List Char := f.flatMap Atom.raw

/-- The value of an octal or hexadecimal digit. -/
def octalDigit (c : Char) : Option Nat := if '0' ≤ c ∧ c ≤ '7' then some (c.toNat - 48) else none

def hexDigit (c : Char) : Option Nat :=
  if '0' ≤ c ∧ c ≤ '9' then some (c.toNat - 48)
  else if 'a' ≤ c ∧ c ≤ 'f' then some (c.toNat - 87)
  else if 'A' ≤ c ∧ c ≤ 'F' then some (c.toNat - 55)
  else none

/-- The further digits of a numeric escape, at most `k` of them. -/
def digits (digit : Char → Option Nat) (base : Nat) : Nat → Nat → RawField → Nat × RawField
  | 0, n, f => (n, f)
  | _ + 1, n, [] => (n, [])
  | _ + 1, n, .esc c :: f => (n, .esc c :: f)
  | k + 1, n, .plain c :: f =>
    match digit c with
    | none => (n, .plain c :: f)
    | some d => digits digit base k (n * base + d) f

theorem length_digits_le (digit : Char → Option Nat) (base k n : Nat) (f : RawField) :
    (digits digit base k n f).2.length ≤ f.length := by
  induction k generalizing n f with
  | zero => exact Nat.le_refl _
  | succ k ih =>
    cases f with
    | nil => exact Nat.le_refl _
    | cons a f =>
      cases a with
      | esc c => exact Nat.le_refl _
      | plain c =>
        unfold digits
        split
        · exact Nat.le_refl _
        · exact Nat.le_succ_of_le (ih _ _)

/-- The characters that a backslash turns into a control character. -/
def control : Char → Char
  | 'b' => '\x08'
  | 'f' => '\x0c'
  | 'n' => '\n'
  | 'r' => '\r'
  | 't' => '\t'
  | 'v' => '\x0b'
  | c => c

/-- The text that the server stores for a field. -/
def stored : RawField → List Char
  | [] => []
  | .plain c :: f => c :: stored f
  | .esc c :: f =>
    match octalDigit c with
    | some d =>
      have := length_digits_le octalDigit 8 2 d f
      Char.ofNat ((digits octalDigit 8 2 d f).1 % 256) :: stored (digits octalDigit 8 2 d f).2
    | none =>
      have := length_digits_le hexDigit 16 2 0 f
      if c = 'x' ∧ (digits hexDigit 16 2 0 f).2.length < f.length then
        Char.ofNat (digits hexDigit 16 2 0 f).1 :: stored (digits hexDigit 16 2 0 f).2
      else control c :: stored f
termination_by f => f.length
decreasing_by
  · exact Nat.lt_succ_self _
  · exact Nat.lt_succ_of_le this
  · exact Nat.lt_succ_of_le this
  · exact Nat.lt_succ_self _

/-- The value of a field, where it is not null. -/
def value (null : List Char) (f : RawField) : Option (List Char) :=
  if rawText f = null then none else some (stored f)

abbrev CopyRow := List RawField

def rowText (delimiter : Char) : CopyRow → List Char
  | [] => []
  | [f] => rawText f
  | f :: g :: fs => rawText f ++ delimiter :: rowText delimiter (g :: fs)

/-- The ends that a line can have. -/
def GoodEol (eol : List Char) : Prop := eol = ['\n'] ∨ eol = ['\r'] ∨ eol = ['\r', '\n']

def line (delimiter : Char) (eol : List Char) (row : CopyRow) : List Char := rowText delimiter row ++ eol

/-! ## What is claimed -/

/-- A delimiter that the server accepts: `COPY` does not take a backslash, the ends of a line, or what
could follow a backslash. -/
structure GoodDelimiter (d : Char) : Prop where
  backslash : d ≠ '\\'
  newline : d ≠ '\n'
  carriageReturn : d ≠ '\r'
  octal : octalDigit d = none
  hex : d ≠ 'x'
  control : control d = d

/-- A null text that the server accepts. -/
structure GoodNull (delimiter : Char) (null : List Char) : Prop where
  delimiter : delimiter ∉ null
  newline : '\n' ∉ null
  carriageReturn : '\r' ∉ null

/-- Only where it is escaped does a field hold a delimiter, a backslash or an end of line. -/
def Escaped (delimiter : Char) (f : RawField) : Prop :=
  ∀ c, .plain c ∈ f → c ≠ delimiter ∧ c ≠ '\\' ∧ c ≠ '\n' ∧ c ≠ '\r'

/-- A row of text: it is escaped as it has to be, it holds no null character, and its line is not the one
that ends the data. -/
structure GoodRow (delimiter : Char) (row : CopyRow) : Prop where
  nonempty : row ≠ []
  escaped : ∀ f ∈ row, Escaped delimiter f
  nul : ∀ f ∈ row, '\x00' ∉ rawText f
  notEnd : rowText delimiter row ≠ ['\\', '.']

/-- The place of the key among the fields: that in the column list if there is one. -/
def keyPlace (stmt : CopyStmt) (r : DistDefInfo) : Option Nat :=
  match stmt.attlist with
  | none => some r.distKeyColId
  | some cols => cols.findIdx? (· = r.distKeyColName)

/-- The node of a row: that of the value of its key, if it has one, it is not null, and the node can be
used. -/
def place (db : SystemDb) (r : DistDefInfo) (stmt : CopyStmt) (null : List Char) (row : CopyRow) :
    Option Nat :=
  match keyPlace stmt r with
  | none => none
  | some k =>
    match row[k]? with
    | none => none
    | some f =>
      match value null f with
      | none => none
      | some v =>
        match db.execPrepared r v with
        | none => none
        | some id => db.nodeOf id

/-- A `COPY` with the end of its lines, the rows and the line that ends the data, if the client sends one,
the way it cuts them into messages, and the message that ends it. -/
structure CopyInput where
  stmt : CopyStmt
  eol : List Char
  rows : List CopyRow
  marker : Bool
  chunks : List (List Char)
  last : CopyMessage

namespace CopyInput

variable (input : CopyInput)

def vars : CopyVars := checkCopyFromStdin input.stmt

/-- The line that ends the data, if it is sent. -/
def markerText : List Char := if input.marker then ['\\', '.'] ++ input.eol else []

/-- The line of a row. -/
def line (row : CopyRow) : List Char := Parallel.line input.vars.copyDelimiter input.eol row

/-- The messages. -/
def messages : List CopyMessage := input.chunks.map (⟨'d', ·⟩) ++ [input.last]

/-- A `COPY` into the table of a rule, in text format. -/
structure WellFormed (r : DistDefInfo) : Prop where
  schema : input.stmt.schemaname.getD "public" = r.schemaName
  table : input.stmt.relname = r.tableName
  delimiter : GoodDelimiter input.vars.copyDelimiter
  null : GoodNull input.vars.copyDelimiter input.vars.copyNull
  eol : GoodEol input.eol
  rows : ∀ row ∈ input.rows, GoodRow input.vars.copyDelimiter row
  cut : input.chunks.flatten = input.rows.flatMap input.line ++ input.markerText
  last : input.last.kind = 'c' ∨ input.last.kind = 'f'

/-- Every row can be placed, and every node gets the data of its rows, the end of the data and the last
message; or some row cannot, the child gives up, and no node has been told that the data are complete. -/
def Placed (db : SystemDb) (r : DistDefInfo) (result : CopyEnd × Sent) : Prop :=
  let node := place db r input.stmt input.vars.copyNull
  if ∀ row ∈ input.rows, (node row).isSome then
    result.1 = .finished ∧ ∀ i, (i < db.numBackends ∧ db.validBackend i = true →
      ∃ chunks : List (List Char), result.2 i = chunks.map (⟨'d', ·⟩) ++ [input.last] ∧
        chunks.flatten = (input.rows.filter fun row => node row = some i).flatMap input.line ++
          input.markerText) ∧
      (¬ (i < db.numBackends ∧ db.validBackend i = true) → result.2 i = [])
  else result.1 = .aborted ∧ ∀ i, ∀ m ∈ result.2 i, m.kind = 'd'

end CopyInput

/-! ## The condition -/

/-- A field whose text `parse_copy_data` finds as it is stored: nothing but the delimiter is escaped. -/
def Plain (delimiter : Char) (f : RawField) : Prop := ∀ c, .esc c ∈ f → c = delimiter

/-- An escaped backslash at the end of a field hides the delimiter that follows. -/
def Open (f : RawField) : Prop := f.getLast? ≠ some (.esc '\\')

/-- The row can be read: the fields up to the key do not hide the delimiters behind them, the key is the
null text or has nothing but delimiters escaped, and where it is the last field, the line ends with one
character. -/
structure Readable (vars : CopyVars) (eol : List Char) (k : Nat) (row : CopyRow) : Prop where
  before : ∀ j < k, ∀ f, j + 1 < row.length → row[j]? = some f → Open f
  key : ∀ f, row[k]? = some f →
    Plain vars.copyDelimiter f ∨ (rawText f = vars.copyNull ∧ (k + 1 < row.length → Open f))
  last : k + 1 = row.length → eol.length = 1

/-- The inputs that do not meet the defects: the statement comes by the simple protocol, or the last one
that did had the same options and table; a column list has the key in the place it has in the table; each
message is one row, or the line that ends the data, with a newline; and each row can be read. -/
structure CopyInput.Careful (input : CopyInput) (r : DistDefInfo) (simple : Bool) (prev : CopyVars) :
    Prop where
  simple : simple = true ∨ prev = input.vars
  columns : keyPlace input.stmt r = some r.distKeyColId
  marker : input.marker = true → input.eol = ['\n']
  cut : input.chunks = input.rows.map input.line ++ if input.marker then [input.markerText] else []
  readable : ∀ row ∈ input.rows, Readable input.vars input.eol r.distKeyColId row

/-! ## Reading a row -/

/-- The text that `parse_copy_data` makes of a field. -/
def codeText (delimiter : Char) (f : RawField) : List Char :=
  f.flatMap fun
    | .plain c => [c]
    | .esc c => if c = delimiter then [c] else ['\\', c]

section

variable {d c x : Char} {k n : Nat} {t str eol : List Char} {f : RawField} {row : CopyRow}

theorem scanCopyData_push (ht : t ≠ []) (hback : c ≠ '\\') (hd : c ≠ d) :
    scanCopyData d k (c :: t) n str = scanCopyData d k t n (str ++ [c]) := by
  obtain ⟨x, rest, rfl⟩ := List.exists_cons_of_ne_nil ht
  rw [scanCopyData, if_neg (fun h => hback h.1), if_neg hd]

/-- A backslash before anything but the delimiter is taken as it is. -/
theorem scanCopyData_backslash (hd : d ≠ '\\') (ht : t ≠ []) (hhead : t.head? ≠ some d) :
    scanCopyData d k ('\\' :: t) n str = scanCopyData d k t n (str ++ ['\\']) := by
  obtain ⟨x, rest, rfl⟩ := List.exists_cons_of_ne_nil ht
  have hx : x ≠ d := fun h => hhead (by rw [h]; rfl)
  rw [scanCopyData]
  by_cases hrest : rest ≠ []
  · rw [if_pos ⟨rfl, hrest⟩, if_neg hx]
  · rw [if_neg (fun h => hrest h.2), if_neg hd.symm]

theorem Open.tail {a : Atom} {f : RawField} (h : Open (a :: f)) (hf : f ≠ []) : Open f := by
  unfold Open at *
  rwa [List.getLast?_cons_of_ne_nil hf] at h

/-- A field goes into the text, whatever follows it. -/
theorem scanCopyData_field (hd : GoodDelimiter d)
    (hesc : Escaped d f) (ht : t ≠ [])
    (hopen : t.head? = some d → Open f) :
    scanCopyData d k (rawText f ++ t) n str = scanCopyData d k t n (str ++ codeText d f) := by
  induction f generalizing str with
  | nil => simp [rawText, codeText]
  | cons a f ih =>
    have hne : rawText f ++ t ≠ [] := fun h => ht (List.append_eq_nil_iff.mp h).2
    have hrec : ∀ str, scanCopyData d k (rawText f ++ t) n str =
        scanCopyData d k t n (str ++ codeText d f) := by
      intro str
      refine ih (fun c hc => hesc c (List.mem_cons_of_mem _ hc)) ?_
      intro hhead
      by_cases hf : f = []
      · subst hf
        exact nofun
      · exact (hopen hhead).tail hf
    cases a with
    | plain c =>
      obtain ⟨hcd, hcb, _⟩ := hesc c List.mem_cons_self
      show scanCopyData d k (c :: (rawText f ++ t)) n str = _
      rw [scanCopyData_push hne hcb hcd, hrec]
      simp [codeText]
    | esc c =>
      show scanCopyData d k ('\\' :: c :: (rawText f ++ t)) n str = _
      by_cases hcd : c = d
      · rw [scanCopyData, if_pos ⟨rfl, hne⟩, if_pos hcd, hrec]
        simp [codeText, hcd]
      · rw [scanCopyData_backslash hd.backslash (by simp) (by simpa using hcd)]
        have hnext : scanCopyData d k (c :: (rawText f ++ t)) n (str ++ ['\\']) =
            scanCopyData d k (rawText f ++ t) n (str ++ ['\\'] ++ [c]) := by
          by_cases hcb : c = '\\'
          · subst hcb
            refine scanCopyData_backslash hd.backslash hne ?_
            intro hhead
            cases f with
            | nil => exact hopen hhead rfl
            | cons a f =>
              cases a with
              | plain x =>
                have hx : x = d := by simpa [rawText, Atom.raw] using hhead
                exact (hesc x (List.mem_cons_of_mem _ List.mem_cons_self)).1 hx
              | esc x =>
                have hx : '\\' = d := by simpa [rawText, Atom.raw] using hhead
                exact hd.backslash hx.symm
          · exact scanCopyData_push hne hcb hcd
        rw [hnext, hrec]
        simp [codeText, hcd]

/-- The end of a line, but for its last character, goes into the text. -/
theorem scanCopyData_eol (hd : GoodDelimiter d) (heol : GoodEol eol) :
    scanCopyData d k eol n str = (n, str ++ eol.dropLast) := by
  obtain rfl | rfl | rfl := heol
  · simp [scanCopyData]
  · simp [scanCopyData]
  · rw [scanCopyData_push (by simp) (by decide) hd.carriageReturn.symm]
    rfl

theorem GoodEol.head (heol : GoodEol eol) (hd : GoodDelimiter d) : eol.head? ≠ some d := by
  obtain rfl | rfl | rfl := heol
  · exact fun h => hd.newline (Option.some.inj h).symm
  · exact fun h => hd.carriageReturn (Option.some.inj h).symm
  · exact fun h => hd.carriageReturn (Option.some.inj h).symm

theorem GoodEol.ne_nil (heol : GoodEol eol) : eol ≠ [] := by
  obtain rfl | rfl | rfl := heol <;> exact List.cons_ne_nil _ _

/-- The loop of `parse_copy_data` over a row, from its field `n` on. -/
theorem scanCopyData_row (hd : GoodDelimiter d) (heol : GoodEol eol)
    (hesc : ∀ f ∈ row, Escaped d f) (hrow : row ≠ [])
    (hn : n ≤ k) (hopen : ∀ j f, row[j]? = some f → n + j ≤ k → j + 1 < row.length → Open f)
    (hlast : k + 1 = n + row.length → eol.length = 1) :
    ∃ m text, scanCopyData d k (line d eol row) n [] = (m, text) ∧
      (∀ f, row[k - n]? = some f → m = k ∧ text = codeText d f) ∧ (row[k - n]? = none → m ≠ k) := by
  induction row generalizing n with
  | nil => exact absurd rfl hrow
  | cons f fs ih =>
    cases fs with
    | nil =>
      refine ⟨n, codeText d f ++ eol.dropLast, ?_, ?_, ?_⟩
      · show scanCopyData d k (rawText f ++ eol) n [] = _
        rw [scanCopyData_field hd (hesc f List.mem_cons_self) heol.ne_nil
          (fun h => absurd h (heol.head hd)), scanCopyData_eol hd heol, List.nil_append]
      · intro g hg
        cases hkn : k - n with
        | zero =>
          rw [hkn] at hg
          cases hg
          have hone := hlast (by
            rw [List.length_singleton]
            omega)
          obtain ⟨c, rfl⟩ := List.length_eq_one_iff.mp hone
          exact ⟨by omega, List.append_nil _⟩
        | succ m =>
          rw [hkn] at hg
          cases hg
      · intro hnone
        cases hkn : k - n with
        | zero =>
          rw [hkn] at hnone
          cases hnone
        | succ m => omega
    | cons g gs =>
      have hne : line d eol (g :: gs) ≠ [] := fun h => heol.ne_nil (List.append_eq_nil_iff.mp h).2
      obtain ⟨x, rest, hx⟩ := List.exists_cons_of_ne_nil hne
      have hfield : scanCopyData d k (line d eol (f :: g :: gs)) n [] =
          scanCopyData d k (d :: line d eol (g :: gs)) n (codeText d f) := by
        have hline : line d eol (f :: g :: gs) = rawText f ++ d :: line d eol (g :: gs) := by
          simp [line, rowText]
        rw [hline, scanCopyData_field hd (hesc f List.mem_cons_self) (by simp)
          (fun _ => hopen 0 f rfl (by omega) (by simp)), List.nil_append]
      rw [hfield, hx, scanCopyData, if_neg (fun h => hd.backslash h.1), if_pos rfl]
      by_cases hnk : n = k
      · rw [if_pos hnk]
        refine ⟨n, codeText d f, rfl, ?_, ?_⟩
        · intro h hh
          rw [hnk, Nat.sub_self] at hh
          cases hh
          exact ⟨hnk, rfl⟩
        · intro hnone
          rw [hnk, Nat.sub_self] at hnone
          cases hnone
      · rw [if_neg hnk, ← hx]
        obtain ⟨m, text, hscan, hfound, hmissing⟩ := ih
          (fun f hf => hesc f (List.mem_cons_of_mem _ hf)) (by simp) (show n + 1 ≤ k by omega)
          (fun j h hj hle hlt => hopen (j + 1) h hj (by omega) (by
            rw [List.length_cons]
            omega))
          (fun h => hlast (by
            rw [List.length_cons]
            omega))
        have hindex : (f :: g :: gs)[k - n]? = (g :: gs)[k - (n + 1)]? := by
          rw [show k - n = k - (n + 1) + 1 by omega]
          rfl
        rw [hindex]
        exact ⟨m, text, hscan, hfound, hmissing⟩

theorem mem_codeText (h : c ∈ codeText d f) : c ∈ rawText f := by
  obtain ⟨a, ha, hc⟩ := List.mem_flatMap.mp h
  refine List.mem_flatMap.mpr ⟨a, ha, ?_⟩
  cases a with
  | plain x => exact hc
  | esc x =>
    simp only at hc
    split at hc
    · rw [List.mem_singleton.mp hc]
      simp [Atom.raw]
    · exact hc

/-- The key of a row, as `parse_copy_data` reads it. -/
theorem parseCopyData_line (hd : GoodDelimiter d) (heol : GoodEol eol) (hgood : GoodRow d row)
    (hopen : ∀ j f, row[j]? = some f → j ≤ k → j + 1 < row.length → Open f)
    (hlast : k + 1 = row.length → eol.length = 1) :
    parseCopyData (line d eol row) d k = row[k]?.map (codeText d) := by
  obtain ⟨m, text, hscan, hfound, hmissing⟩ := @scanCopyData_row d k 0 eol row hd heol hgood.escaped
    hgood.nonempty (Nat.zero_le k) (fun j f hj hle hlt => hopen j f hj (by omega) hlt)
    (fun h => hlast (by omega))
  unfold parseCopyData
  rw [hscan]
  cases hk : row[k]? with
  | none =>
    exact if_neg (hmissing hk)
  | some f =>
    obtain ⟨rfl, rfl⟩ := hfound f hk
    simp only [if_true, Option.map_some, Option.some.injEq]
    refine List.takeWhile_eq_self_iff.mpr ?_
    intro c hc
    rw [decide_eq_true_iff]
    intro hnul
    exact hgood.nul f (List.mem_of_getElem? hk) (hnul ▸ mem_codeText hc)

theorem stored_eq_codeText (hd : GoodDelimiter d) (hf : Plain d f) : stored f = codeText d f := by
  induction f with
  | nil =>
    rw [stored]
    rfl
  | cons a f ih =>
    have htail := ih (fun c hc => hf c (List.mem_cons_of_mem _ hc))
    cases a with
    | plain c =>
      rw [stored, htail]
      simp [codeText]
    | esc c =>
      have hc := hf c List.mem_cons_self
      subst hc
      rw [stored]
      simp only [hd.octal, hd.hex, false_and, if_false, hd.control, htail]
      simp [codeText]

theorem codeText_eq_rawText (h : ∀ c, .esc c ∈ f → c ≠ d) : codeText d f = rawText f := by
  unfold codeText rawText
  refine List.flatMap_congr ?_
  intro a ha
  cases a with
  | plain c => rfl
  | esc c => exact if_neg (h c ha)

theorem delimiter_mem_rawText (h : .esc d ∈ f) : d ∈ rawText f :=
  List.mem_flatMap.mpr ⟨_, h, by simp [Atom.raw]⟩

theorem delimiter_mem_codeText (h : .esc d ∈ f) : d ∈ codeText d f :=
  List.mem_flatMap.mpr ⟨_, h, by simp⟩

/-- The null text is found where it stands. -/
theorem codeText_eq_null {null : List Char} (hnull : d ∉ null) :
    codeText d f = null ↔ rawText f = null := by
  by_cases hesc : .esc d ∈ f
  · constructor
    · intro h
      exact absurd (h ▸ delimiter_mem_codeText hesc) hnull
    · intro h
      exact absurd (h ▸ delimiter_mem_rawText hesc) hnull
  · have hnone : ∀ c, .esc c ∈ f → c ≠ d := by
      intro c hc hcd
      subst hcd
      exact hesc hc
    rw [codeText_eq_rawText hnone]

end

/-! ## The rows of a copy -/

section

variable {db : SystemDb} {r : DistDefInfo} {vars : CopyVars} {stmt : CopyStmt} {row : CopyRow}
  {eol : List Char}

/-- What the loop does with the message of a row. -/
theorem place_eq (hdb : db.WellFormed) (hr : r ∈ db.rules) (hd : GoodDelimiter vars.copyDelimiter)
    (heol : GoodEol eol) (hnull : GoodNull vars.copyDelimiter vars.copyNull)
    (hgood : GoodRow vars.copyDelimiter row)
    (hcols : keyPlace stmt r = some r.distKeyColId) (hread : Readable vars eol r.distKeyColId row) :
    place db r stmt vars.copyNull row =
      match parseCopyData (line vars.copyDelimiter eol row) vars.copyDelimiter r.distKeyColId with
      | none => none
      | some key => if key = vars.copyNull then none else db.nodeOf (db.poolGetId r key) := by
  have hopen : ∀ j f, row[j]? = some f → j ≤ r.distKeyColId → j + 1 < row.length → Open f := by
    intro j f hj hle hlt
    obtain hlt' | rfl := Nat.lt_or_eq_of_le hle
    · exact hread.before j hlt' f hlt hj
    · obtain hplain | ⟨_, hopen⟩ := hread.key f hj
      · intro hlast
        exact hd.backslash (hplain _ (List.mem_of_getLast? hlast)).symm
      · exact hopen hlt
  rw [parseCopyData_line hd heol hgood hopen hread.last]
  unfold place
  rw [hcols]
  cases hk : row[r.distKeyColId]? with
  | none => simp only [hk, Option.map_none]
  | some f =>
    simp only [hk, Option.map_some, value]
    by_cases hisnull : rawText f = vars.copyNull
    · rw [if_pos hisnull, if_pos ((codeText_eq_null hnull.delimiter).mpr hisnull)]
    · rw [if_neg hisnull, if_neg (fun h => hisnull ((codeText_eq_null hnull.delimiter).mp h))]
      have hplain := (hread.key f hk).resolve_right (fun h => hisnull h.1)
      rw [stored_eq_codeText hd hplain]
      cases hexec : db.execPrepared r (codeText vars.copyDelimiter f) with
      | none =>
        simp only [hexec, SystemDb.poolGetId_none hexec]
        rfl
      | some id =>
        simp only [hexec, SystemDb.poolGetId_eq hexec (hdb.node r hr _ id hexec).2]

/-- The message of a row. -/
def rowMessage (vars : CopyVars) (eol : List Char) (row : CopyRow) : CopyMessage :=
  ⟨'d', line vars.copyDelimiter eol row⟩

/-- The line of a row is not the one that ends the data. -/
theorem GoodEol.not_endOfData (heol : GoodEol eol) {text : List Char} (h : text ≠ ['\\', '.']) :
    text ++ eol ≠ endOfData := by
  intro heq
  have hend : endOfData = ['\\', '.'] ++ ['\n'] := rfl
  rw [hend] at heq
  obtain rfl | rfl | rfl := heol
  · exact h (List.append_cancel_right heq)
  · have hlast := congrArg List.getLast? heq
    simp at hlast
  · have heq : text ++ ['\r'] = ['\\', '.'] := List.append_cancel_right (by simpa using heq)
    have hlast := congrArg List.getLast? heq
    simp at hlast

/-- The loop over one row. -/
theorem copyDataRows_row (hdb : db.WellFormed) (hr : r ∈ db.rules)
    (hd : GoodDelimiter vars.copyDelimiter) (heol : GoodEol eol)
    (hnull : GoodNull vars.copyDelimiter vars.copyNull)
    (hgood : GoodRow vars.copyDelimiter row) (hcols : keyPlace stmt r = some r.distKeyColId)
    (hread : Readable vars eol r.distKeyColId row) (ms : List CopyMessage) (s : Sent) :
    copyDataRows db vars (some r) (rowMessage vars eol row :: ms) s =
      match place db r stmt vars.copyNull row with
      | none => (.aborted, s)
      | some i => copyDataRows db vars (some r) ms (s.toNode i (rowMessage vars eol row)) := by
  rw [place_eq hdb hr hd heol hnull hgood hcols hread]
  have hne : (rowMessage vars eol row).contents ≠ [] :=
    fun h => heol.ne_nil (List.append_eq_nil_iff.mp h).2
  have hend : (rowMessage vars eol row).contents ≠ endOfData := heol.not_endOfData hgood.notEnd
  rw [copyDataRows, if_pos (show (rowMessage vars eol row).kind = 'd' from rfl), if_neg hne, if_neg hend]
  show (match parseCopyData (line vars.copyDelimiter eol row) vars.copyDelimiter r.distKeyColId with
    | none => (CopyEnd.aborted, s)
    | some key => _) = _
  cases parseCopyData (line vars.copyDelimiter eol row) vars.copyDelimiter r.distKeyColId with
  | none => rfl
  | some key =>
    by_cases hkey : key = vars.copyNull
    · simp only [if_pos hkey]
    · cases hnode : db.nodeOf (db.poolGetId r key) <;> simp only [if_neg hkey, hnode]

/-- The loop over rows that can all be placed: each node gets its own. -/
theorem copyDataRows_placed {rows : List CopyRow} {ms : List CopyMessage}
    (hstep : ∀ row ∈ rows, ∀ ms s, copyDataRows db vars (some r) (rowMessage vars eol row :: ms) s =
      match place db r stmt vars.copyNull row with
      | none => (.aborted, s)
      | some i => copyDataRows db vars (some r) ms (s.toNode i (rowMessage vars eol row)))
    (hall : ∀ row ∈ rows, (place db r stmt vars.copyNull row).isSome = true) (s : Sent) :
    copyDataRows db vars (some r) (rows.map (rowMessage vars eol) ++ ms) s =
      copyDataRows db vars (some r) ms fun i =>
        s i ++ (rows.filter fun row => place db r stmt vars.copyNull row = some i).map
          (rowMessage vars eol) := by
  induction rows generalizing s with
  | nil => simp
  | cons row rows ih =>
    obtain ⟨i, hi⟩ := Option.isSome_iff_exists.mp (hall row List.mem_cons_self)
    rw [List.map_cons, List.cons_append, hstep row List.mem_cons_self, hi]
    simp only
    rw [ih (fun row h => hstep row (List.mem_cons_of_mem _ h))
      (fun row h => hall row (List.mem_cons_of_mem _ h))]
    congr 1
    funext j
    by_cases hji : j = i
    · subst hji
      simp [Sent.toNode, hi]
    · simp [Sent.toNode, hi, hji, Ne.symm hji]

/-- The loop over rows of which one cannot be placed: the child gives up among the data. -/
theorem copyDataRows_aborted {rows : List CopyRow} {ms : List CopyMessage}
    (hstep : ∀ row ∈ rows, ∀ ms s, copyDataRows db vars (some r) (rowMessage vars eol row :: ms) s =
      match place db r stmt vars.copyNull row with
      | none => (.aborted, s)
      | some i => copyDataRows db vars (some r) ms (s.toNode i (rowMessage vars eol row)))
    (hsome : ∃ row ∈ rows, (place db r stmt vars.copyNull row).isSome = false) {s : Sent}
    (hs : ∀ i, ∀ m ∈ s i, m.kind = 'd') :
    ∃ s', copyDataRows db vars (some r) (rows.map (rowMessage vars eol) ++ ms) s = (.aborted, s') ∧
      ∀ i, ∀ m ∈ s' i, m.kind = 'd' := by
  induction rows generalizing s with
  | nil =>
    obtain ⟨row, hrow, _⟩ := hsome
    cases hrow
  | cons row rows ih =>
    rw [List.map_cons, List.cons_append, hstep row List.mem_cons_self]
    cases hi : place db r stmt vars.copyNull row with
    | none => exact ⟨s, rfl, hs⟩
    | some i =>
      refine ih (fun row h => hstep row (List.mem_cons_of_mem _ h)) ?_ ?_
      · obtain ⟨row', hrow', hnone⟩ := hsome
        obtain rfl | hrow' := List.mem_cons.mp hrow'
        · rw [hi] at hnone
          cases hnone
        · exact ⟨row', hrow', hnone⟩
      · intro j m hm
        unfold Sent.toNode at hm
        split at hm
        · obtain hm | hm := List.mem_append.mp hm
          · exact hs j m hm
          · rw [List.mem_singleton.mp hm]
            rfl
        · exact hs j m hm

theorem place_valid (hdb : db.WellFormed) (hr : r ∈ db.rules) {null : List Char} {i : Nat}
    (h : place db r stmt null row = some i) : i < db.numBackends ∧ db.validBackend i = true := by
  unfold place at h
  split at h
  · cases h
  · split at h
    · cases h
    · split at h
      · cases h
      · rename_i v _
        split at h
        · cases h
        · rename_i id hexec
          obtain ⟨rfl, hok⟩ := SystemDb.nodeOf_eq_some h
          exact ⟨Int.ofNat_lt.mp (hdb.node r hr v i hexec).2, hok⟩

end

/-! ## The statement and the end -/

theorem lookUp_table (options : List (String × List Char)) (vars : CopyVars) :
    (lookUp options vars).copySchema = vars.copySchema ∧
      (lookUp options vars).copyTable = vars.copyTable := by
  induction options generalizing vars with
  | nil => exact ⟨rfl, rfl⟩
  | cons option options ih =>
    unfold lookUp
    split
    · exact ih _
    · split
      · exact ih _
      · exact ih _

namespace CopyInput

variable (input : CopyInput)

theorem copySchema_eq : input.vars.copySchema = some (input.stmt.schemaname.getD "public") :=
  (lookUp_table input.stmt.options _).1

theorem copyTable_eq : input.vars.copyTable = some input.stmt.relname :=
  (lookUp_table input.stmt.options _).2

/-- What follows the rows. -/
def ending : List CopyMessage :=
  (if input.marker then [⟨'d', endOfData⟩] else []) ++ [input.last]

/-- The texts of the data that a node gets. -/
def texts (rows : List CopyRow) : List (List Char) :=
  rows.map input.line ++ if input.marker then [input.markerText] else []

theorem flatten_texts (rows : List CopyRow) :
    (input.texts rows).flatten = rows.flatMap input.line ++ input.markerText := by
  unfold texts markerText
  rw [List.flatten_append, List.flatMap_def]
  cases input.marker with
  | false => rfl
  | true => simp

variable {input}

theorem map_texts (hmarker : input.marker = true → input.eol = ['\n']) (rows : List CopyRow) :
    (input.texts rows).map (⟨'d', ·⟩) ++ [input.last] =
      rows.map (rowMessage input.vars input.eol) ++ input.ending := by
  unfold texts ending markerText
  rw [List.map_append, List.map_map, List.append_assoc]
  refine congrArg (rows.map (rowMessage input.vars input.eol) ++ ·) ?_
  cases h : input.marker with
  | false => rfl
  | true =>
    rw [hmarker h]
    rfl

variable {r : DistDefInfo} {simple : Bool} {prev : CopyVars}

theorem Careful.messages_eq (h : input.Careful r simple prev) :
    input.messages = input.rows.map (rowMessage input.vars input.eol) ++ input.ending := by
  rw [← map_texts h.marker]
  unfold messages texts
  rw [h.cut]

/-- The end of the data and the last message go to every node. -/
theorem copyDataRows_ending (db : SystemDb)
    (hlast : input.last.kind = 'c' ∨ input.last.kind = 'f') (s : Sent) :
    copyDataRows db input.vars (some r) input.ending s = (.finished, fun j =>
      if j < db.numBackends ∧ db.validBackend j = true then s j ++ input.ending else s j) := by
  have hkind : input.last.kind ≠ 'd' := by
    obtain h | h := hlast <;> rw [h] <;> decide
  have hfinish : ∀ s, copyDataRows db input.vars (some r) [input.last] s =
      (.finished, s.toAll db input.last) := by
    intro s
    rw [copyDataRows]
    exact if_neg hkind
  unfold ending
  cases hmarker : input.marker with
  | false =>
    exact hfinish s
  | true =>
    show copyDataRows db input.vars (some r) [⟨'d', endOfData⟩, input.last] s = _
    have hne : (⟨'d', endOfData⟩ : CopyMessage).contents ≠ [] := List.cons_ne_nil _ _
    rw [copyDataRows, if_pos rfl, if_neg hne, if_pos rfl, hfinish]
    refine congrArg (Prod.mk _) ?_
    funext j
    unfold Sent.toAll
    by_cases hj : j < db.numBackends ∧ db.validBackend j = true
    · simp only [if_pos hj, List.append_assoc, if_true]
    · simp only [if_neg hj]

end CopyInput

/-- `COPY t FROM STDIN` with the rows `a` and `b`. -/
def letterRows (chunks : List (List Char)) : CopyInput where
  stmt := { schemaname := none, relname := "t", attlist := none, options := [] }
  eol := ['\n']
  rows := [[[.plain 'a']], [[.plain 'b']]]
  marker := false
  chunks := chunks
  last := ⟨'c', []⟩

theorem goodRow_plain {c : Char} (hesc : c ≠ '\t' ∧ c ≠ '\\' ∧ c ≠ '\n' ∧ c ≠ '\r')
    (hnul : '\x00' ≠ c) : GoodRow '\t' [[.plain c]] where
  nonempty := List.cons_ne_nil _ _
  escaped f hf x hx := by
    rw [List.mem_singleton.mp hf] at hx
    cases List.mem_singleton.mp hx
    exact hesc
  nul f hf hmem := by
    rw [List.mem_singleton.mp hf] at hmem
    exact hnul (List.mem_singleton.mp hmem)
  notEnd h := by
    have hlen := congrArg List.length h
    cases hlen

theorem goodDelimiter_tab : GoodDelimiter '\t' where
  backslash := by decide
  newline := by decide
  carriageReturn := by decide
  octal := by decide
  hex := by decide
  control := rfl

theorem goodNull_default : GoodNull '\t' ['\\', 'N'] where
  delimiter := by decide
  newline := by decide
  carriageReturn := by decide

theorem place_letter (chunks : List (List Char)) (c : Char) :
    place twoNodes letters (letterRows chunks).stmt (letterRows chunks).vars.copyNull [[.plain c]] =
      some (if c = 'a' then 0 else 1) := by
  have hnull : rawText [.plain c] ≠ ['\\', 'N'] := by simp [rawText, Atom.raw]
  have hvalue : value ['\\', 'N'] [.plain c] = some [c] := by
    unfold value
    rw [if_neg hnull, stored, stored]
  show (match value ['\\', 'N'] [.plain c] with
    | none => none
    | some v => match twoNodes.execPrepared letters v with
      | none => none
      | some id => twoNodes.nodeOf id) = _
  rw [hvalue]
  by_cases hc : c = 'a'
  · rw [hc]
    rfl
  · have hexec : twoNodes.execPrepared letters [c] = some 1 := if_neg (by simpa using hc)
    simp only [hexec, if_neg hc]
    rfl

theorem wellFormed_letterRows {chunks : List (List Char)}
    (hcut : chunks.flatten = ['a', '\n', 'b', '\n']) : (letterRows chunks).WellFormed letters where
  schema := rfl
  table := rfl
  delimiter := goodDelimiter_tab
  null := goodNull_default
  eol := Or.inl rfl
  rows row hrow := by
    obtain rfl | hrow := List.mem_cons.mp hrow
    · exact goodRow_plain (by decide) (by decide)
    · rw [List.mem_singleton.mp hrow]
      exact goodRow_plain (by decide) (by decide)
  cut := hcut
  last := Or.inl rfl

theorem careful_letterRows (prev : CopyVars) :
    (letterRows [['a', '\n'], ['b', '\n']]).Careful letters true prev where
  simple := Or.inl rfl
  columns := rfl
  marker := nofun
  cut := rfl
  readable row hrow := by
    have hread : ∀ c, Readable (letterRows []).vars ['\n'] 0 [[.plain c]] := fun c =>
      { before := fun j hj => absurd hj (Nat.not_lt_zero j)
        key := by
          intro f hf
          cases hf
          exact Or.inl fun x hx => nomatch List.mem_singleton.mp hx
        last := fun _ => rfl }
    obtain rfl | hrow := List.mem_cons.mp hrow
    · exact hread 'a'
    · rw [List.mem_singleton.mp hrow]
      exact hread 'b'

end PgPool.Parallel
