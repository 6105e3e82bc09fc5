import Mathlib.Data.List.TakeWhile
import PgPool.Hba.Tokens

/-!
# The words of a record

How a line of `pool_hba.conf` is meant to be read: words between blanks, in which quotes take away what
blanks, commas, hashes and keywords stand for, and fields, which are lists of words.  Lines without the
cases that the tokenizer gets wrong come out of `tokenize_file` as their fields.
-/

namespace PgPool.Hba

/-- A word: what it says, whether there is a quote in it, whether a comma follows, and the room it needs in
a buffer that is filled by the way, its quotes and the comma too. -/
structure Word where
  text : Bytes
  quoted : Bool
  joined : Bool
  size : Nat
  deriving DecidableEq

/-- What is scanned of a line as one word, and what is left of the line. -/
structure Scan where
  text : Bytes
  quoted : Bool
  size : Nat
  rest : Bytes

def Scan.push (c : UInt8) (s : Scan) : Scan := { s with text := c :: s.text, size := s.size + 1 }

def Scan.quote (s : Scan) : Scan := { s with quoted := true, size := max 1 s.size }

/-- Where in a word a character stands: `behind` a quote in quotes, which has closed them unless it is the
first of two. -/
inductive Mode where
  | outside
  | inside
  | behind
  deriving DecidableEq

/-- A word.  In quotes a doubled quote is one that belongs to it; a comment ends the line. -/
def scan : Mode → Bytes → Scan
  | _, [] => ⟨[], false, 0, []⟩
  | .inside, c :: line =>
    if c = dquote then (scan .behind line).quote else (scan .inside line).push c
  | mode, c :: line =>
    if c = dquote then
      if mode = .behind then ((scan .inside line).push c).quote else (scan .inside line).quote
    else if c = hash then ⟨[], false, 0, []⟩
    else if pgIsblank c then ⟨[], false, 0, c :: line⟩
    else if c = comma then ⟨[], false, 1, c :: line⟩
    else (scan .outside line).push c

def Scan.word (s : Scan) : Word := ⟨s.text, s.quoted, s.rest.head? == some comma, s.size⟩

def wordsFrom : Nat → Bytes → List Word
  | 0, _ => []
  | fuel + 1, line =>
    match skipBlanks line with
    | [] => []
    | c :: line =>
      if c = hash then []
      else (scan .outside (c :: line)).word :: wordsFrom fuel (scan .outside (c :: line)).rest

/-- The words of a line. -/
def words (line : Bytes) : List Word := wordsFrom line.length line

/-- The fields of a record: a comma behind a word joins the next one to it. -/
def fields : List Word → List (List Word)
  | [] => []
  | w :: ws =>
    if w.joined then
      match fields ws with
      | [] => [[w]]
      | f :: fs => (w :: f) :: fs
    else [w] :: fields ws

/-- Without a quote, `all` and the others are keywords. -/
def Word.keyword (w : Word) : Bool := !w.quoted && w.text ∈ keywords

/-- The fields of the lines that are not blank. -/
def records (file : Bytes) : List (List (List Word)) :=
  ((file.splitOn newline).map fun line => fields (words line)).filter (· ≠ [])

/-! ## The condition -/

/-- What the tokenizer reads as it should be. -/
structure Word.Clean (w : Word) : Prop where
  nonempty : w.text ≠ []
  nul : 0 ∉ w.text
  separator : multiValueSep ∉ w.text
  included : w.text.head? ≠ some at'
  fits : w.size ≤ maxToken - 2
  -- the comma of a name is not taken for one behind it
  last : w.joined = false → w.text.getLast? ≠ some comma
  marked : w.joined = true → w.keyword = false

instance (w : Word) : Decidable w.Clean :=
  decidable_of_iff (w.text ≠ [] ∧ 0 ∉ w.text ∧ multiValueSep ∉ w.text ∧ w.text.head? ≠ some at' ∧
      w.size ≤ maxToken - 2 ∧ (w.joined = false → w.text.getLast? ≠ some comma) ∧
      (w.joined = true → w.keyword = false))
    ⟨fun ⟨h₁, h₂, h₃, h₄, h₅, h₆, h₇⟩ => ⟨h₁, h₂, h₃, h₄, h₅, h₆, h₇⟩,
      fun ⟨h₁, h₂, h₃, h₄, h₅, h₆, h₇⟩ => ⟨h₁, h₂, h₃, h₄, h₅, h₆, h₇⟩⟩

/-- The words of a line are clean, and no list goes over its end. -/
def CleanLine (ws : List Word) : Prop :=
  (∀ w ∈ ws, w.Clean) ∧ ∀ w ∈ ws.getLast?, w.joined = false

instance (ws : List Word) : Decidable (CleanLine ws) := inferInstanceAs (Decidable (_ ∧ _))

/-! ## One word -/

/-- What `next_token` puts into the buffer for a word, without the comma. -/
def Word.encode (w : Word) : Bytes := if w.keyword then w.text ++ [newline] else w.text

def Word.token (w : Word) : Bytes := if w.joined then w.encode ++ [comma] else w.encode

section

variable {line tail buf : Bytes} {w : Word} {ws : List Word} {s : Scan}

/-- What follows a line. -/
def Ends (tail : Bytes) : Prop := tail = [] ∨ ∃ more, tail = newline :: more

/-- The comma that is passed back. -/
def Scan.passed (s : Scan) : Bytes := if s.rest.head? = some comma then [comma] else []

@[simp] theorem Scan.push_text (c : UInt8) (s : Scan) : (s.push c).text = c :: s.text := rfl

@[simp] theorem Scan.push_quoted (c : UInt8) (s : Scan) : (s.push c).quoted = s.quoted := rfl

@[simp] theorem Scan.push_rest (c : UInt8) (s : Scan) : (s.push c).rest = s.rest := rfl

@[simp] theorem Scan.push_passed (c : UInt8) (s : Scan) : (s.push c).passed = s.passed := rfl

@[simp] theorem Scan.quote_text (s : Scan) : s.quote.text = s.text := rfl

@[simp] theorem Scan.quote_quoted (s : Scan) : s.quote.quoted = true := rfl

@[simp] theorem Scan.quote_rest (s : Scan) : s.quote.rest = s.rest := rfl

@[simp] theorem Scan.quote_passed (s : Scan) : s.quote.passed = s.passed := rfl

/-- The scanned characters go into a buffer that has `n` of them. -/
def Scan.Fits (n : Nat) (s : Scan) : Prop := n + s.size ≤ maxToken - 2

theorem Scan.Fits.push {c : UInt8} {n : Nat} (h : (s.push c).Fits n) :
    n < maxToken - 2 ∧ s.Fits (n + 1) := by
  have hsize : n + (s.size + 1) ≤ maxToken - 2 := h
  exact ⟨by omega, by unfold Scan.Fits; omega⟩

theorem Scan.Fits.quote {n : Nat} (h : s.quote.Fits n) : n < maxToken - 2 ∧ s.Fits n := by
  have hsize : n + max 1 s.size ≤ maxToken - 2 := h
  exact ⟨by omega, by unfold Scan.Fits; omega⟩

def Mode.inQuote (m : Mode) : Bool := m == .inside

def Mode.wasQuote (m : Mode) : Bool := m == .behind

/-- Where the next character stands. -/
def Mode.next (m : Mode) (c : UInt8) : Mode :=
  if c = dquote then (if m = .inside then .behind else .inside)
  else if m = .inside then .inside else .outside

theorem inQuote_next (m : Mode) (c : UInt8) :
    (if c = dquote then !m.inQuote else m.inQuote) = (m.next c).inQuote := by
  unfold Mode.next
  cases m <;> split <;> rfl

theorem wasQuote_next (m : Mode) (c : UInt8) :
    (m.inQuote && c == dquote && !m.wasQuote) = (m.next c).wasQuote := by
  unfold Mode.next
  by_cases hquote : c = dquote
  · subst hquote
    cases m <;> rfl
  · cases m <;> simp [hquote, Mode.inQuote, Mode.wasQuote]

/-- The loop takes a character. -/
theorem buildToken_cons {m : Mode} {sawQuote : Bool} {c : UInt8} {text : Bytes} (hc : newline ≠ c)
    (hroom : buf.length < maxToken - 2)
    (htaken : m = .inside ∨ pgIsblank c = false ∧ c ≠ hash ∧ c ≠ comma) :
    buildToken buf m.inQuote m.wasQuote sawQuote (c :: text) =
      buildToken (if c ≠ dquote ∨ m = .behind then buf ++ [c] else buf) (m.next c).inQuote
        (m.next c).wasQuote (sawQuote || c == dquote) text := by
  have hinside : m.inQuote = true ↔ m = .inside := beq_iff_eq
  have hbehind : m.wasQuote = true ↔ m = .behind := beq_iff_eq
  have hstop : ¬(c = newline ∨ (pgIsblank c ∧ ¬m.inQuote)) := by
    rintro (heq | ⟨hblank, hquote⟩)
    · exact hc heq.symm
    · obtain heq | ⟨hnot, -, -⟩ := htaken
      · exact hquote (hinside.mpr heq)
      · rw [hnot] at hblank
        cases hblank
  have hcomment : ¬(c = hash ∧ ¬m.inQuote) := fun ⟨heq, hquote⟩ =>
    htaken.elim (fun h => hquote (hinside.mpr h)) fun htaken => htaken.2.1 heq
  have hcomma : ¬(c = comma ∧ ¬m.inQuote) := fun ⟨heq, hquote⟩ =>
    htaken.elim (fun h => hquote (hinside.mpr h)) fun htaken => htaken.2.2 heq
  rw [buildToken, if_neg hstop, if_neg hcomment, if_neg (Nat.not_le.mpr hroom)]
  dsimp only
  rw [if_neg hcomma, inQuote_next, wasQuote_next]
  simp only [hbehind]

theorem afterLine_append (hends : Ends tail) (hline : newline ∉ line) :
    afterLine (line ++ tail) = tail := by
  unfold afterLine
  have hrun : ∀ c ∈ line, (c != newline) = true := fun c hc =>
    bne_iff_ne.mpr fun heq => hline (heq ▸ hc)
  rw [List.dropWhile_append_of_pos hrun]
  obtain rfl | ⟨more, rfl⟩ := hends
  · rfl
  · exact List.dropWhile_cons_of_neg (by simp)

theorem scan_outside {m : Mode} {c : UInt8} (hm : m ≠ .inside) (hquote : c ≠ dquote) :
    scan m (c :: line) =
      if c = hash then ⟨[], false, 0, []⟩ else if pgIsblank c then ⟨[], false, 0, c :: line⟩
      else if c = comma then ⟨[], false, 1, c :: line⟩ else (scan .outside line).push c := by
  cases m with
  | inside => exact absurd rfl hm
  | outside => rw [scan, if_neg hquote]; nofun
  | behind => rw [scan, if_neg hquote]; nofun

/-- The loop of `next_token` does what the scan says. -/
theorem buildToken_append (hends : Ends tail) (m : Mode) (sawQuote : Bool) (hline : newline ∉ line)
    (hfits : (scan m line).Fits buf.length) (hne : buf ++ (scan m line).text ≠ []) :
    buildToken buf m.inQuote m.wasQuote sawQuote (line ++ tail) =
      (buf ++ (scan m line).text ++ (scan m line).passed, sawQuote || (scan m line).quoted,
        .at ((scan m line).rest ++ tail)) := by
  induction line generalizing buf m sawQuote with
  | nil =>
    have hscan : scan m [] = ⟨[], false, 0, []⟩ := by cases m <;> rfl
    rw [hscan, List.nil_append]
    obtain rfl | ⟨more, rfl⟩ := hends
    · simp [buildToken, Scan.passed]
    · simp [buildToken, Scan.passed]
  | cons c line ih =>
    rw [List.mem_cons, not_or] at hline
    obtain ⟨hc, hline⟩ := hline
    rw [List.cons_append]
    by_cases hquote : c = dquote
    · subst hquote
      have htaken : m = .inside ∨ pgIsblank dquote = false ∧ dquote ≠ hash ∧ dquote ≠ comma :=
        .inr (by decide)
      cases m with
      | outside =>
        have hscan : scan .outside (dquote :: line) = (scan .inside line).quote := rfl
        rw [hscan] at hfits hne ⊢
        rw [buildToken_cons hc hfits.quote.1 htaken, if_neg (by decide)]
        refine (ih .inside _ hline hfits.quote.2 hne).trans ?_
        simp
      | inside =>
        have hscan : scan .inside (dquote :: line) = (scan .behind line).quote := rfl
        rw [hscan] at hfits hne ⊢
        rw [buildToken_cons hc hfits.quote.1 htaken, if_neg (by decide)]
        refine (ih .behind _ hline hfits.quote.2 hne).trans ?_
        simp
      | behind =>
        have hscan : scan .behind (dquote :: line) = ((scan .inside line).push dquote).quote := rfl
        rw [hscan] at hfits hne ⊢
        rw [buildToken_cons hc hfits.quote.1 htaken, if_pos (.inr rfl)]
        refine (ih .inside _ hline ?_ (by simp)).trans ?_
        · rw [List.length_append]
          exact hfits.quote.2.push.2
        · simp
    · by_cases hm : m = .inside
      · subst hm
        have hscan : scan .inside (c :: line) = (scan .inside line).push c := by rw [scan, if_neg hquote]
        rw [hscan] at hfits ⊢
        rw [buildToken_cons hc hfits.push.1 (.inl rfl), if_pos (.inl hquote), Mode.next, if_neg hquote,
          if_pos rfl]
        refine (ih .inside _ hline ?_ (by simp)).trans ?_
        · rw [List.length_append]
          exact hfits.push.2
        · simp [beq_false_of_ne hquote]
      · have hout : ¬m.inQuote = true := fun h => hm (beq_iff_eq.mp h)
        rw [scan_outside hm hquote] at hfits hne ⊢
        by_cases hhash : c = hash
        · subst hhash
          rw [if_pos rfl] at hne ⊢
          have hbuf : buf ≠ [] := by simpa using hne
          rw [buildToken, if_neg (by simp [hout, hash, newline, pgIsblank]), if_pos ⟨rfl, hout⟩,
            if_neg hbuf, afterLine_append hends hline]
          simp [Scan.passed]
        rw [if_neg hhash] at hfits hne ⊢
        by_cases hblank : pgIsblank c = true
        · rw [if_pos hblank] at hne ⊢
          have hcomma : c ≠ comma := by
            rintro rfl
            cases hblank
          rw [buildToken, if_pos (.inr ⟨hblank, hout⟩)]
          simp [Scan.passed, hcomma]
        rw [if_neg hblank] at hfits hne ⊢
        by_cases hcomma : c = comma
        · subst hcomma
          rw [if_pos rfl] at hfits hne ⊢
          have hroom : buf.length + 1 ≤ maxToken - 2 := hfits
          rw [buildToken, if_neg (by simp [hout, comma, newline, pgIsblank]),
            if_neg fun h => absurd h.1 (by decide), if_neg (Nat.not_le.mpr hroom)]
          dsimp only
          rw [if_pos ⟨rfl, hout⟩, if_pos (.inl hquote)]
          simp [Scan.passed]
        · rw [if_neg hcomma] at hfits hne ⊢
          rw [buildToken_cons hc hfits.push.1 (.inr ⟨Bool.not_eq_true _ ▸ hblank, hhash, hcomma⟩),
            if_pos (.inl hquote), Mode.next, if_neg hquote, if_neg hm]
          refine (ih .outside _ hline ?_ (by simp)).trans ?_
          · rw [List.length_append]
            exact hfits.push.2
          · simp [beq_false_of_ne hquote]

/-! ## The words of a line -/

theorem skipBlanks_append (hends : Ends tail) : skipBlanks (line ++ tail) = skipBlanks line ++ tail := by
  have htail : skipBlanks tail = tail := by
    obtain rfl | ⟨more, rfl⟩ := hends
    · rfl
    · exact List.dropWhile_cons_of_neg (by decide)
  unfold skipBlanks at htail ⊢
  rw [List.dropWhile_append, htail]
  split
  · next hempty => rw [List.isEmpty_iff.mp hempty, List.nil_append]
  · rfl

/-- What a word says and what is left of the line both come from the line. -/
theorem scan_sublist (m : Mode) (line : Bytes) :
    ((scan m line).text ++ (scan m line).rest).Sublist line := by
  induction line generalizing m with
  | nil =>
    have hscan : scan m [] = ⟨[], false, 0, []⟩ := by cases m <;> rfl
    rw [hscan]
    exact List.nil_sublist _
  | cons c line ih =>
    by_cases hquote : c = dquote
    · subst hquote
      cases m with
      | outside => exact (ih .inside).cons _
      | inside => exact (ih .behind).cons _
      | behind => exact (ih .inside).cons_cons _
    · by_cases hm : m = .inside
      · rw [hm, scan, if_neg hquote]
        exact (ih .inside).cons_cons _
      · rw [scan_outside hm hquote]
        split
        · exact List.nil_sublist _
        · split
          · exact List.Sublist.refl _
          · split
            · exact List.Sublist.refl _
            · exact (ih .outside).cons_cons _

theorem scan_rest (m : Mode) (line : Bytes) : (scan m line).rest.Sublist line :=
  (List.sublist_append_right _ _).trans (scan_sublist m line)

theorem scan_text (m : Mode) (line : Bytes) : (scan m line).text.Sublist line :=
  (List.sublist_append_left _ _).trans (scan_sublist m line)

/-- A word takes the character that it begins with. -/
theorem scan_rest_lt {c : UInt8} (hc : pgIsblank c = false ∧ c ≠ comma) (line : Bytes) :
    (scan .outside (c :: line)).rest.length ≤ line.length := by
  by_cases hquote : c = dquote
  · subst hquote
    exact (scan_rest .inside line).length_le
  · rw [scan_outside (by decide) hquote]
    split
    · exact Nat.zero_le _
    · rw [if_neg (by simp [hc]), if_neg hc.2]
      exact (scan_rest .outside line).length_le

theorem skipBlanks_cons {c : UInt8} {text : Bytes} (h : skipBlanks line = c :: text) :
    (pgIsblank c = false ∧ c ≠ comma) ∧ c :: text <:+ line := by
  constructor
  · have hhead := List.head?_dropWhile_not (fun c => pgIsblank c || c == comma) line
    unfold skipBlanks at h
    rw [h] at hhead
    simpa using hhead
  · rw [← h]
    exact List.dropWhile_suffix _

theorem wordsFrom_eq {n m : Nat} (hn : line.length ≤ n) (hm : line.length ≤ m) :
    wordsFrom n line = wordsFrom m line := by
  induction n generalizing m line with
  | zero =>
    obtain rfl := List.length_eq_zero_iff.mp (Nat.le_zero.mp hn)
    cases m <;> rfl
  | succ n ih =>
    cases m with
    | zero =>
      obtain rfl := List.length_eq_zero_iff.mp (Nat.le_zero.mp hm)
      rfl
    | succ m =>
      rw [wordsFrom, wordsFrom]
      cases hskip : skipBlanks line with
      | nil => rfl
      | cons c text =>
        obtain ⟨hc, hsuffix⟩ := skipBlanks_cons hskip
        have hlt := scan_rest_lt hc text
        have hle := hsuffix.length_le
        rw [List.length_cons] at hle
        dsimp only
        rw [ih (m := m) (by omega) (by omega)]

theorem words_nil (h : skipBlanks line = [] ∨ ∃ text, skipBlanks line = hash :: text) :
    words line = [] := by
  unfold words
  cases line with
  | nil => rfl
  | cons c line =>
    rw [List.length_cons, wordsFrom]
    obtain hskip | ⟨text, hskip⟩ := h
    · rw [hskip]
    · rw [hskip]
      rfl

theorem words_cons {c : UInt8} {text : Bytes} (h : skipBlanks line = c :: text) (hc : c ≠ hash) :
    words line = (scan .outside (c :: text)).word :: words (scan .outside (c :: text)).rest := by
  obtain ⟨hblank, hsuffix⟩ := skipBlanks_cons h
  have hlt := scan_rest_lt hblank text
  have hle := hsuffix.length_le
  unfold words
  cases line with
  | nil => cases h
  | cons d line =>
    rw [List.length_cons, wordsFrom, h]
    dsimp only
    rw [if_neg hc, wordsFrom_eq (m := (scan .outside (c :: text)).rest.length) _ (Nat.le_refl _)]
    rw [List.length_cons, List.length_cons] at hle
    omega

/-- The next word of a line, where there is one. -/
theorem exists_word (hne : words line ≠ []) (hline : newline ∉ line) :
    ∃ c text, skipBlanks line = c :: text ∧ newline ∉ c :: text ∧
      words line = (scan .outside (c :: text)).word :: words (scan .outside (c :: text)).rest ∧
      (scan .outside (c :: text)).rest.length < line.length := by
  cases hskip : skipBlanks line with
  | nil => exact absurd (words_nil (.inl hskip)) hne
  | cons c text =>
    by_cases hhash : c = hash
    · exact absurd (words_nil (.inr ⟨text, hhash ▸ hskip⟩)) hne
    obtain ⟨hc, hsuffix⟩ := skipBlanks_cons hskip
    have hlt := scan_rest_lt hc text
    have hle := hsuffix.length_le
    rw [List.length_cons] at hle
    exact ⟨c, text, rfl, fun hmem => hline (hsuffix.subset hmem), words_cons hskip hhash, by omega⟩

theorem newline_not_mem_words (hline : newline ∉ line) : ∀ w ∈ words line, newline ∉ w.text := by
  induction hn : line.length using Nat.strong_induction_on generalizing line with
  | h n ih =>
    by_cases hne : words line = []
    · rw [hne]
      exact nofun
    · obtain ⟨c, text, -, hnewline, hwords, hless⟩ := exists_word hne hline
      rw [hwords]
      refine List.forall_mem_cons.mpr ⟨fun hmem => hnewline ((scan_text _ _).subset hmem), ?_⟩
      exact ih _ (hn ▸ hless) (fun hmem => hnewline ((scan_rest _ _).subset hmem)) rfl

theorem flatten_fields (ws : List Word) : (fields ws).flatten = ws := by
  induction ws with
  | nil => rfl
  | cons w ws ih =>
    rw [fields]
    split
    · cases hrest : fields ws with
      | nil =>
        rw [hrest] at ih
        simp [← ih]
      | cons f fs =>
        rw [hrest, List.flatten_cons] at ih
        simp [ih]
    · simp [ih]

theorem ne_nil_of_mem_fields (ws : List Word) : ∀ f ∈ fields ws, f ≠ [] := by
  induction ws with
  | nil => exact nofun
  | cons w ws ih =>
    rw [fields]
    split
    · cases hrest : fields ws with
      | nil => simp
      | cons f fs =>
        rw [hrest] at ih
        exact List.forall_mem_cons.mpr ⟨List.cons_ne_nil _ _, (List.forall_mem_cons.mp ih).2⟩
    · exact List.forall_mem_cons.mpr ⟨List.cons_ne_nil _ _, ih⟩

/-! ## `next_token` -/

theorem cstring_eq (h : 0 ∉ buf) : cstring buf = buf :=
  List.takeWhile_eq_self_iff.mpr fun _ hc => bne_iff_ne.mpr fun heq => h (heq ▸ hc)

theorem Scan.word_fits (h : s.word.Clean) : s.Fits 0 := by
  unfold Scan.Fits
  rw [Nat.zero_add]
  exact h.fits

/-- What `next_token` does at its end. -/
theorem token_eq (h : s.word.Clean) :
    cstring (if !s.quoted && cstring (s.text ++ s.passed) ∈ keywords then s.text ++ s.passed ++ [newline]
      else s.text ++ s.passed) = s.word.token := by
  have htext : 0 ∉ s.text := h.nul
  have hnul : ∀ end' : Bytes, 0 ∉ end' → cstring (s.text ++ end') = s.text ++ end' := fun end' hend =>
    cstring_eq (by simp [htext, hend])
  by_cases hjoined : s.rest.head? = some comma
  · have hpassed : s.passed = [comma] := if_pos hjoined
    have hword : s.word.joined = true := by simp [Scan.word, hjoined]
    have hplain : s.text ++ [comma] ∉ keywords := by
      intro hmem
      have hlast : ∀ k ∈ keywords, k.getLast? ≠ some comma := by decide
      exact hlast _ hmem (by simp)
    rw [hpassed, hnul [comma] (by decide), if_neg (by simp [hplain]), hnul [comma] (by decide), Word.token,
      if_pos hword, Word.encode, h.marked hword]
    rfl
  · have hpassed : s.passed = [] := if_neg hjoined
    have hword : s.word.joined = false := by simp [Scan.word, hjoined]
    have htoken : s.word.token =
        if !s.quoted && s.text ∈ keywords then s.text ++ [newline] else s.text := by
      rw [Word.token, hword]
      rfl
    rw [hpassed, hnul [] (by decide), List.append_nil, htoken]
    split
    · exact hnul [newline] (by decide)
    · exact cstring_eq htext

theorem nextToken_word {c : UInt8} {text : Bytes} (hends : Ends tail) (h : skipBlanks line = c :: text)
    (hnewline : newline ∉ c :: text) (hclean : (scan .outside (c :: text)).word.Clean) (eof : Bool) :
    nextToken ⟨line ++ tail, eof⟩ =
      ((scan .outside (c :: text)).word.token, .at ((scan .outside (c :: text)).rest ++ tail)) := by
  unfold nextToken
  dsimp only
  rw [skipBlanks_append hends, h, List.cons_append]
  have hbuild : buildToken [] false false false (c :: (text ++ tail)) = _ :=
    buildToken_append hends .outside false hnewline (Scan.word_fits hclean) hclean.nonempty
  generalize scan .outside (c :: text) = s at hclean hbuild ⊢
  have hc : c ≠ newline := fun heq => hnewline (heq ▸ List.mem_cons_self)
  dsimp only
  rw [if_neg hc, hbuild, List.nil_append, Bool.false_or]
  dsimp only
  rw [token_eq hclean]

/-! ## `next_token_expand` -/

theorem encode_ne_nil (h : w.Clean) : w.encode ≠ [] := by
  unfold Word.encode
  split
  · simp
  · exact h.nonempty

theorem head_encode (h : w.Clean) : w.encode.head? = w.text.head? := by
  unfold Word.encode
  split
  · exact List.head?_append_of_ne_nil _ h.nonempty
  · rfl

theorem expandLoop_word (incFile : Bytes → Bytes) (fuel : Nat) (commaStr : Bytes) {stream after : Stream}
    (hclean : w.Clean) (h : nextToken stream = (w.token, after)) :
    expandLoop incFile (fuel + 1) commaStr stream =
      if w.joined then expandLoop incFile fuel (commaStr ++ w.encode ++ [multiValueSep]) after
      else (commaStr ++ w.encode, after) := by
  have hhead : w.encode.head? ≠ some at' := head_encode hclean ▸ hclean.included
  have hne : w.encode ≠ [] := encode_ne_nil hclean
  rw [expandLoop, h]
  dsimp only
  cases hjoined : w.joined with
  | true =>
    have htoken : w.token = w.encode ++ [comma] := by rw [Word.token, hjoined]; rfl
    rw [htoken, if_neg (by simp)]
    simp [hhead]
  | false =>
    have htoken : w.token = w.encode := by rw [Word.token, hjoined]; rfl
    have hlast : w.encode.getLast? ≠ some comma := by
      unfold Word.encode
      split
      · simp [newline, comma]
      · exact hclean.last hjoined
    rw [htoken, if_neg hne]
    simp [hhead, hlast]

/-- The string that `next_token_expand` makes of a field. -/
def fieldToken (f : List Word) : Bytes := [multiValueSep].intercalate (f.map Word.encode)

theorem fieldToken_cons {f : List Word} (hf : f ≠ []) :
    fieldToken (w :: f) = w.encode ++ [multiValueSep] ++ fieldToken f := by
  unfold fieldToken
  rw [List.map_cons, List.intercalate_cons_of_ne_nil (by simpa using hf)]

theorem fieldToken_singleton (w : Word) : fieldToken [w] = w.encode := List.intercalate_singleton

/-- Reading a field. -/
theorem expandLoop_field {incFile : Bytes → Bytes} {fuel : Nat} (hends : Ends tail)
    (hline : newline ∉ line) (hfuel : line.length < fuel) (hclean : CleanLine (words line))
    (hne : words line ≠ []) (commaStr : Bytes) (eof : Bool) :
    ∃ f rest, f ≠ [] ∧ fields (words line) = f :: fields (words rest) ∧
      expandLoop incFile fuel commaStr ⟨line ++ tail, eof⟩ =
        (commaStr ++ fieldToken f, .at (rest ++ tail)) ∧
      rest.length < line.length ∧ newline ∉ rest ∧ CleanLine (words rest) ∧
      ∀ w ∈ f, w.Clean := by
  induction fuel generalizing line commaStr eof with
  | zero => exact absurd hfuel (Nat.not_lt_zero _)
  | succ fuel ih =>
    obtain ⟨c, text, hskip, hnewline, hwords, hshort⟩ := exists_word hne hline
    have hrest : newline ∉ (scan .outside (c :: text)).rest := fun hmem =>
      hnewline ((scan_rest _ _).subset hmem)
    have hword : (scan .outside (c :: text)).word.Clean := hclean.1 _ (hwords ▸ List.mem_cons_self)
    have hstep := expandLoop_word incFile fuel commaStr hword
      (nextToken_word hends hskip hnewline hword eof)
    rw [hwords] at hclean
    rw [hwords, hstep]
    generalize scan .outside (c :: text) = s at *
    have hcleanRest : CleanLine (words s.rest) := by
      refine ⟨fun w hw => hclean.1 w (List.mem_cons_of_mem _ hw), fun w hw => hclean.2 w ?_⟩
      cases hrestWords : words s.rest with
      | nil =>
        rw [hrestWords] at hw
        cases hw
      | cons w' ws =>
        rw [List.getLast?_cons_cons, ← hrestWords]
        exact hw
    cases hjoined : s.word.joined with
    | false =>
      refine ⟨[s.word], s.rest, by simp, ?_, ?_, by omega, hrest, hcleanRest, by simpa using hword⟩
      · rw [fields, if_neg (by simp [hjoined])]
      · rw [if_neg (by simp), fieldToken_singleton]
    | true =>
      have hmore : words s.rest ≠ [] := by
        intro hnil
        have hlast := hclean.2 s.word (by rw [hnil]; rfl)
        rw [hjoined] at hlast
        cases hlast
      obtain ⟨f, rest, hf, hfields, hexpand, hless, hrestLine, hcleanAfter, hcleanField⟩ :=
        ih hrest (by omega) hcleanRest hmore (commaStr ++ s.word.encode ++ [multiValueSep])
          (s.rest ++ tail).isEmpty
      refine ⟨s.word :: f, rest, by simp, ?_, ?_, by omega, hrestLine, hcleanAfter,
        List.forall_mem_cons.mpr ⟨hword, hcleanField⟩⟩
      · rw [fields, if_pos hjoined, hfields]
      · rw [if_pos rfl, fieldToken_cons hf]
        refine hexpand.trans ?_
        simp only [List.append_assoc]

/-! ## `tokenize_file` -/

theorem fieldToken_ne_nil {f : List Word} (hf : f ≠ []) (h : ∀ w ∈ f, w.Clean) : fieldToken f ≠ [] := by
  cases f with
  | nil => exact absurd rfl hf
  | cons w f =>
    have hw := encode_ne_nil (h w List.mem_cons_self)
    cases f with
    | nil => rwa [fieldToken_singleton]
    | cons w' f => simp [fieldToken_cons, hw]

/-- The end of a line. -/
theorem nextTokenExpand_end {incFile : Bytes → Bytes} (hends : Ends tail) (hline : newline ∉ line)
    (h : words line = []) (eof : Bool) :
    ∃ eof', nextTokenExpand incFile ⟨line ++ tail, eof⟩ = ([], ⟨tail.tail, eof'⟩) ∧
      (eof' = true → tail.tail = []) ∧ (tail = [] → eof' = true) := by
  have htoken : ∃ eof', nextToken ⟨line ++ tail, eof⟩ = ([], ⟨tail.tail, eof'⟩) ∧
      (eof' = true → tail.tail = []) ∧ (tail = [] → eof' = true) := by
    unfold nextToken
    dsimp only
    rw [skipBlanks_append hends]
    cases hskip : skipBlanks line with
    | nil =>
      obtain rfl | ⟨more, rfl⟩ := hends
      · exact ⟨true, rfl, fun _ => rfl, fun _ => rfl⟩
      · exact ⟨false, rfl, nofun, nofun⟩
    | cons c text =>
      have hhash : c = hash := by
        by_contra hne
        rw [words_cons hskip hne] at h
        cases h
      subst hhash
      have htext : newline ∉ text := fun hmem =>
        hline ((skipBlanks_cons hskip).2.subset (List.mem_cons_of_mem _ hmem))
      have hbuild : buildToken [] false false false (hash :: (text ++ tail)) =
          ([], false, .at tail.tail) := by
        rw [buildToken, if_neg (by decide), if_pos (by decide), if_pos rfl, afterLine_append hends htext]
      rw [List.cons_append]
      dsimp only
      rw [if_neg (by decide), hbuild]
      refine ⟨tail.tail.isEmpty, rfl, List.isEmpty_iff.mp, ?_⟩
      rintro rfl
      rfl
  obtain ⟨eof', heq, hnil, htail⟩ := htoken
  refine ⟨eof', ?_, hnil, htail⟩
  rw [nextTokenExpand, expandLoop, heq]
  rfl

/-- A line, and what follows it. -/
theorem exists_line (text : Bytes) : ∃ line tail, text = line ++ tail ∧ newline ∉ line ∧ Ends tail := by
  induction text with
  | nil => exact ⟨[], [], rfl, nofun, .inl rfl⟩
  | cons c text ih =>
    by_cases hc : c = newline
    · exact ⟨[], c :: text, rfl, nofun, .inr ⟨text, hc ▸ rfl⟩⟩
    · obtain ⟨line, tail, rfl, hline, hends⟩ := ih
      exact ⟨c :: line, tail, rfl, by simp [Ne.symm hc, hline], hends⟩

/-- The tokens of a line. -/
def lineTokens (line : Bytes) : List Bytes := (fields (words line)).map fieldToken

theorem linesOf_nil (current : Option HbaLine) (lineNumber : Nat) :
    linesOf current lineNumber [] = current.toList := by
  cases current <;> rfl

theorem linesOf_end (current : Option HbaLine) (lineNumber : Nat) (tokens : List Bytes) :
    linesOf current lineNumber ([] :: tokens) = current.toList ++ linesOf none (lineNumber + 1) tokens := by
  cases current <;> rfl

/-- The tokens of the line that is being read. -/
def begun (current : Option HbaLine) : List Bytes := current.elim [] HbaLine.tokens

theorem linesOf_token (current : Option HbaLine) (lineNumber : Nat) {token : Bytes} (tokens : List Bytes)
    (h : token ≠ []) :
    ∃ line : HbaLine, line.tokens = begun current ++ [token] ∧
      linesOf current lineNumber (token :: tokens) = linesOf (some line) lineNumber tokens := by
  cases token with
  | nil => exact absurd rfl h
  | cons c token =>
    cases current with
    | none => exact ⟨_, rfl, rfl⟩
    | some line => exact ⟨_, rfl, rfl⟩

theorem toList_tokens {current : Option HbaLine} (h : ∀ line ∈ current, line.tokens ≠ []) :
    current.toList.map HbaLine.tokens = [begun current].filter (· ≠ []) := by
  cases current with
  | none => rfl
  | some line => simp [begun, h line rfl]

/-- The lines of what follows a line. -/
def tailLines (tail : Bytes) : List Bytes := if tail = [] then [] else tail.tail.splitOn newline

theorem splitOn_line (hends : Ends tail) (hline : newline ∉ line) :
    (line ++ tail).splitOn newline = line :: tailLines tail := by
  obtain rfl | ⟨more, rfl⟩ := hends
  · rw [List.append_nil, List.splitOn_eq_singleton hline]
    rfl
  · rw [List.splitOn_append_cons_self_of_not_mem hline]
    rfl

theorem tokenStream_eof (incFile : Bytes → Bytes) (fuel : Nat) (rest : Bytes) :
    tokenStream incFile fuel ⟨rest, true⟩ = [] := by
  cases fuel <;> rfl

theorem linesOf_tokenStream (incFile : Bytes → Bytes) {fuel : Nat} {text : Bytes}
    (hfuel : text.length < fuel) (hends : Ends tail) (hline : newline ∉ line) (htext : text = line ++ tail)
    (hclean : ∀ l ∈ line :: tailLines tail, CleanLine (words l)) (eof : Bool)
    (heof : eof = true → text = []) (current : Option HbaLine)
    (hcurrent : ∀ l ∈ current, l.tokens ≠ []) (lineNumber : Nat) :
    (linesOf current lineNumber (tokenStream incFile fuel ⟨text, eof⟩)).map HbaLine.tokens =
      ((begun current ++ lineTokens line) :: (tailLines tail).map lineTokens).filter (· ≠ []) := by
  induction fuel generalizing line tail text eof current lineNumber with
  | zero => exact absurd hfuel (Nat.not_lt_zero _)
  | succ fuel ih =>
    cases eof with
    | true =>
      rw [heof rfl] at htext
      obtain ⟨rfl, rfl⟩ := List.append_eq_nil_iff.mp htext.symm
      rw [tokenStream_eof, linesOf_nil, toList_tokens hcurrent]
      have hempty : begun current ++ lineTokens [] = begun current := List.append_nil _
      rw [hempty]
      rfl
    | false =>
      rw [tokenStream, if_neg (by simp)]
      dsimp only
      have hlineClean := hclean line List.mem_cons_self
      by_cases hwords : words line = []
      · have hempty : begun current ++ lineTokens line = begun current := by
          rw [lineTokens, hwords]
          exact List.append_nil _
        obtain ⟨eof', hexpand, hnil, hlast⟩ := nextTokenExpand_end hends hline hwords false
        rw [htext, hexpand, linesOf_end, List.map_append, toList_tokens hcurrent, hempty]
        obtain rfl | ⟨more, rfl⟩ := hends
        · rw [hlast rfl, tokenStream_eof]
          exact List.append_nil _
        · obtain ⟨line', tail', rfl, hline', hends'⟩ := exists_line more
          have hsplit : tailLines (newline :: (line' ++ tail')) = line' :: tailLines tail' :=
            splitOn_line hends' hline'
          rw [hsplit] at hclean ⊢
          have hlength : (line' ++ tail').length < fuel := by
            rw [htext, List.length_append, List.length_cons] at hfuel
            omega
          have hrest := ih hlength hends' hline' rfl (fun l hl => hclean l (List.mem_cons_of_mem _ hl)) eof'
            hnil none nofun (lineNumber + 1)
          rw [List.tail_cons, hrest, ← List.filter_append]
          rfl
      · have hless : line.length < text.length + 1 := by
          rw [htext, List.length_append]
          omega
        obtain ⟨f, rest, hf, hfields, hexpand, hrest, hrestLine, hrestClean, hfieldClean⟩ :=
          expandLoop_field hends hline hless hlineClean hwords [] false
        have htoken : nextTokenExpand incFile ⟨text, false⟩ = (fieldToken f, .at (rest ++ tail)) := by
          unfold nextTokenExpand
          rw [← htext, List.nil_append] at hexpand
          exact hexpand
        obtain ⟨begunLine, hbegun, hlines⟩ := linesOf_token current lineNumber
          (tokenStream incFile fuel (.at (rest ++ tail))) (fieldToken_ne_nil hf hfieldClean)
        have hlength : (rest ++ tail).length < fuel := by
          rw [htext, List.length_append] at hfuel
          rw [List.length_append]
          omega
        have hnonempty : ∀ l ∈ some begunLine, l.tokens ≠ [] := by
          rintro l ⟨⟩
          simp [hbegun]
        have hcleanRest : ∀ l ∈ rest :: tailLines tail, CleanLine (words l) :=
          List.forall_mem_cons.mpr ⟨hrestClean, fun l hl => hclean l (List.mem_cons_of_mem _ hl)⟩
        have hline' : begun (some begunLine) ++ lineTokens rest = begun current ++ lineTokens line := by
          have hbegun' : begun (some begunLine) = begun current ++ [fieldToken f] := hbegun
          rw [hbegun', lineTokens, lineTokens, hfields, List.append_assoc]
          rfl
        rw [htoken, hlines, Stream.at, ih hlength hends hrestLine rfl hcleanRest _ List.isEmpty_iff.mp _
          hnonempty, hline']

/-- Lines with clean words come out of `tokenize_file` as their fields. -/
theorem tokenizeFile_eq (incFile : Bytes → Bytes) {file : Bytes}
    (hclean : ∀ line ∈ file.splitOn newline, CleanLine (words line)) :
    (tokenizeFile incFile file).map HbaLine.tokens = (records file).map (List.map fieldToken) := by
  obtain ⟨line, tail, rfl, hline, hends⟩ := exists_line file
  rw [splitOn_line hends hline] at hclean
  have hfuel : (line ++ tail).length < (line ++ tail).length + 2 := by omega
  have hlines := linesOf_tokenStream incFile hfuel hends hline rfl hclean false nofun none nofun 1
  have hcomp : ((fun l : List Bytes => decide (l ≠ [])) ∘ lineTokens) =
      (fun l : List (List Word) => decide (l ≠ [])) ∘ fun l => fields (words l) := by
    funext l
    simp [lineTokens]
  rw [tokenizeFile, fileTokens, hlines, records, splitOn_line hends hline, List.filter_map, List.map_map]
  have hcons : (begun none ++ lineTokens line) :: (tailLines tail).map lineTokens =
      (line :: tailLines tail).map lineTokens := rfl
  rw [← hcomp, hcons, List.filter_map]
  rfl

end

end PgPool.Hba
