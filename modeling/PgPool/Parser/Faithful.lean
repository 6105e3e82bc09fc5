import PgPool.Parser.Deparse

/-!
# What is read back

A name or a constant is read back if the scanner makes exactly one token of its text, with its value.
Names do not survive a quote of their own, nor strings a backslash where strings conform to the
standard: every backslash is doubled.
-/

namespace PgPool.Deparse

/-- The token stands for the constant. -/
def Token.Denotes : Token → Value → Prop
  | .iconst n, .integer ival => (n : Int) = ival
  | .fconst str, .float negated lit => str = floatText negated lit
  | .sconst str, .string str' => str = str'
  | .bconst str, .bitString str' => str = str'
  | _, _ => False

/-- What is printed is scanned as one token, with the value that was printed. -/
def Piece.Faithful (s : Settings) (p : Piece) : Prop :=
  match p with
  -- NULL is a keyword
  | .fixed _ | .const _ .null => True
  | .name _ str => yylex s p.text = some (.ident str, [])
  | .const _ val => ∃ t : Token, yylex s p.text = some (t, []) ∧ t.Denotes val

/-- The constants that are read back. -/
def Value.Kept (standardConformingStrings : Bool) : Value → Prop
  | .integer ival => 0 ≤ ival ∧ ival < 2 ^ 31
  | .float negated lit =>
      negated = false ∧ (lit.frac.isSome = true ∨ lit.exp.isSome = true ∨ 2 ^ 31 ≤ lit.value)
  | .string str => standardConformingStrings = false ∨ backslash ∉ str
  | .bitString _ => False
  | .null => True

/-- The names and constants that are read back. -/
def Piece.Kept (standardConformingStrings : Bool) : Piece → Prop
  | .fixed _ => True
  | .name site str => site ≠ .colname ∧ str ≠ [] ∧ dquote ∉ str
  | .const _ val => val.Kept standardConformingStrings

section

variable {s : Settings} {str name rest lit text : Bytes} {fuel : Nat} {t : Token}

/-! ## Names -/

theorem scanXd_quoted (h : dquote ∉ name) : scanXd (name ++ [dquote]) = some (name, []) := by
  induction name with
  | nil => simp [scanXd]
  | cons c name ih =>
    obtain ⟨hc, hname⟩ := not_or.mp (mt List.mem_cons.mpr h)
    obtain ⟨c', tail, htail⟩ : ∃ c' tail, name ++ [dquote] = c' :: tail :=
      List.exists_cons_of_ne_nil (by simp)
    rw [List.cons_append, htail, scanXd, if_neg (Ne.symm hc), ← htail, ih hname]
    rfl

/-- A name as it has to be written. -/
def requoted (name : Bytes) : Bytes := name.flatMap fun c => if c = dquote then [dquote, dquote] else [c]

theorem requoted_cons {c : UInt8} :
    requoted (c :: name) = (if c = dquote then [dquote, dquote] else [c]) ++ requoted name :=
  List.flatMap_cons ..

theorem scanXd_eq_some (h : scanXd text = some (lit, rest)) :
    text = requoted lit ++ dquote :: rest := by
  induction text using scanXd.induct generalizing lit rest with
  | case1 => cases h
  | case2 =>
    cases h
    rfl
  | case3 c hc =>
    rw [scanXd, if_neg hc] at h
    cases h
  | case4 rest' ih =>
    rw [scanXd, if_pos rfl, if_pos rfl] at h
    obtain ⟨⟨lit', rest''⟩, hscan, hpair⟩ := Option.map_eq_some_iff.mp h
    cases hpair
    rw [ih hscan]
    rfl
  | case5 c' rest' hc' =>
    rw [scanXd, if_pos rfl, if_neg hc'] at h
    cases h
    rfl
  | case6 c c' rest' hc ih =>
    rw [scanXd, if_neg hc] at h
    obtain ⟨⟨lit', rest''⟩, hscan, hpair⟩ := Option.map_eq_some_iff.mp h
    cases hpair
    change _ = requoted (c :: lit') ++ _
    rw [ih hscan, requoted_cons, if_neg hc]
    rfl

theorem length_requoted (name : Bytes) : (requoted name).length = name.length + name.count dquote := by
  induction name with
  | nil => rfl
  | cons c name ih =>
    rw [requoted_cons, List.length_append, ih, List.length_cons, List.count_cons]
    split
    · next hc =>
      rw [if_pos (beq_iff_eq.mpr hc)]
      simp only [List.length_cons, List.length_nil]
      omega
    · next hc =>
      rw [if_neg fun heq => hc (beq_iff_eq.mp heq)]
      simp only [List.length_cons, List.length_nil]
      omega

/-- A quote in an identifier takes two characters of the text. -/
theorem length_scanXd (h : scanXd text = some (lit, rest)) :
    text.length = lit.length + lit.count dquote + 1 + rest.length := by
  rw [scanXd_eq_some h, List.length_append, length_requoted, List.length_cons]
  omega

theorem yylex_quoted : yylex s (dquote :: (name ++ [dquote])) = some (.ident name, []) ↔
    name ≠ [] ∧ dquote ∉ name := by
  change scanIdentifier (name ++ [dquote]) = _ ↔ _
  constructor
  · intro h
    unfold scanIdentifier at h
    cases hscan : scanXd (name ++ [dquote]) with
    | none =>
      rw [hscan] at h
      cases h
    | some found =>
      obtain ⟨_ | ⟨c, lit⟩, rest⟩ := found
      · rw [hscan] at h
        cases h
      · rw [hscan] at h
        cases h
        have hlength := length_scanXd hscan
        have hcount : (c :: lit).count dquote = 0 := by
          rw [List.length_append, List.length_singleton, List.length_nil] at hlength
          omega
        exact ⟨List.cons_ne_nil _ _, List.count_eq_zero.mp hcount⟩
  · intro ⟨hne, hplain⟩
    obtain ⟨c, tail, rfl⟩ := List.exists_cons_of_ne_nil hne
    unfold scanIdentifier
    rw [scanXd_quoted hplain]

/-! ## Strings -/

theorem escapeString_cons {c : UInt8} : escapeString (c :: str) =
    (if c = quote then [quote, quote] else if c = backslash then [backslash, backslash] else [c]) ++
      escapeString str :=
  List.flatMap_cons ..

/-- What the standard reads: every backslash twice. -/
def doubled (str : Bytes) : Bytes :=
  str.flatMap fun c => if c = backslash then [backslash, backslash] else [c]

theorem doubled_cons {c : UInt8} :
    doubled (c :: str) = (if c = backslash then [backslash, backslash] else [c]) ++ doubled str :=
  List.flatMap_cons ..

theorem length_doubled : (doubled str).length = str.length + str.count backslash := by
  induction str with
  | nil => rfl
  | cons c str ih =>
    rw [doubled_cons, List.length_append, ih, List.length_cons]
    by_cases hc : c = backslash
    · rw [if_pos hc, hc, List.count_cons_self]
      simp only [List.length_cons, List.length_nil]
      omega
    · rw [if_neg hc, List.count_cons_of_ne hc, List.length_singleton]
      omega

theorem doubled_eq_self : doubled str = str ↔ backslash ∉ str := by
  constructor
  · intro h
    have hlength := @length_doubled str
    rw [h] at hlength
    exact List.count_eq_zero.mp (by omega)
  · intro h
    induction str with
    | nil => rfl
    | cons c str ih =>
      obtain ⟨hc, hstr⟩ := not_or.mp (mt List.mem_cons.mpr h)
      rw [doubled_cons, if_neg (Ne.symm hc), ih hstr]
      rfl

theorem quote_ne_backslash : quote ≠ backslash := by decide

theorem scanXq_escaped (hfuel : (escapeString str).length < fuel) :
    scanXq fuel (escapeString str ++ [quote]) = some (doubled str, []) := by
  induction str generalizing fuel with
  | nil =>
    cases fuel with
    | zero => exact absurd hfuel (Nat.not_lt_zero _)
    | succ fuel => rfl
  | cons c str ih =>
    rw [escapeString_cons, List.length_append] at hfuel
    rw [escapeString_cons, doubled_cons]
    by_cases hquote : c = quote
    · rw [if_pos hquote] at hfuel ⊢
      rw [if_neg (by rw [hquote]; exact quote_ne_backslash), hquote]
      obtain ⟨fuel, rfl⟩ : ∃ n, fuel = n + 1 := Nat.exists_eq_succ_of_ne_zero (by omega)
      have hrest := @ih fuel (by simp only [List.length_cons, List.length_nil] at hfuel; omega)
      simp only [List.cons_append, List.nil_append, scanXq, List.head?_cons, List.tail_cons, if_true,
        hrest]
      rfl
    · rw [if_neg hquote] at hfuel ⊢
      by_cases hback : c = backslash
      · rw [if_pos hback] at hfuel ⊢
        obtain ⟨fuel, rfl⟩ : ∃ n, fuel = n + 2 :=
          ⟨fuel - 2, by simp only [List.length_cons, List.length_nil] at hfuel; omega⟩
        have hrest := @ih fuel (by simp only [List.length_cons, List.length_nil] at hfuel; omega)
        simp only [List.cons_append, List.nil_append, scanXq, if_neg (Ne.symm quote_ne_backslash),
          hrest]
        rfl
      · rw [if_neg hback] at hfuel ⊢
        obtain ⟨fuel, rfl⟩ : ∃ n, fuel = n + 1 :=
          ⟨fuel - 1, by simp only [List.length_cons, List.length_nil] at hfuel; omega⟩
        have hrest := @ih fuel (by simp only [List.length_cons, List.length_nil] at hfuel; omega)
        simp only [List.cons_append, List.nil_append, scanXq, if_neg hquote, hrest]
        rfl

theorem escape_backslash : escape s (backslash :: rest) = some ([backslash], false, rest) := rfl

theorem scanXe_escaped (hfuel : (escapeString str).length < fuel) :
    scanXe s fuel (escapeString str ++ [quote]) = some (str, false, []) := by
  induction str generalizing fuel with
  | nil =>
    cases fuel with
    | zero => exact absurd hfuel (Nat.not_lt_zero _)
    | succ fuel => rfl
  | cons c str ih =>
    rw [escapeString_cons, List.length_append] at hfuel
    rw [escapeString_cons]
    obtain ⟨fuel, rfl⟩ : ∃ n, fuel = n + 1 := Nat.exists_eq_succ_of_ne_zero (by omega)
    by_cases hquote : c = quote
    · rw [if_pos hquote] at hfuel ⊢
      have hrest := @ih fuel (by simp only [List.length_cons, List.length_nil] at hfuel; omega)
      simp only [List.cons_append, List.nil_append, scanXe, List.head?_cons, List.tail_cons, if_true,
        hrest, hquote]
      rfl
    · rw [if_neg hquote] at hfuel ⊢
      by_cases hback : c = backslash
      · rw [if_pos hback] at hfuel ⊢
        have hrest := @ih fuel (by simp only [List.length_cons, List.length_nil] at hfuel; omega)
        simp only [List.cons_append, List.nil_append, scanXe, if_neg (Ne.symm quote_ne_backslash),
          if_true, escape_backslash, hrest, hback]
        rfl
      · rw [if_neg hback] at hfuel ⊢
        have hrest := @ih fuel (by simp only [List.length_cons, List.length_nil] at hfuel; omega)
        simp only [List.cons_append, List.nil_append, scanXe, if_neg hquote, if_neg hback, hrest]
        rfl

theorem yylex_string : yylex s (quote :: (escapeString str ++ [quote])) =
    some (.sconst (if s.standardConformingStrings then doubled str else str), []) := by
  change scanString s (escapeString str ++ [quote]) = _
  have hfuel : (escapeString str).length < (escapeString str ++ [quote]).length + 1 := by
    rw [List.length_append]
    omega
  unfold scanString
  cases s.standardConformingStrings with
  | true =>
    rw [if_pos rfl, if_pos rfl, scanXq_escaped hfuel]
    rfl
  | false =>
    rw [if_neg Bool.false_ne_true, if_neg Bool.false_ne_true, scanXe_escaped hfuel]
    rfl

/-! ## Numbers -/

theorem isDigit_digitByte (d : Fin 10) : isDigit (digitByte d) = true := by
  revert d
  decide

theorem all_digits (ds : List (Fin 10)) : ∀ c ∈ ds.map digitByte, isDigit c = true := by
  intro c hc
  obtain ⟨d, -, rfl⟩ := List.mem_map.mp hc
  exact isDigit_digitByte d

/-- A text that does not go on with a digit. -/
def Stops (text : Bytes) : Prop := ∀ c ∈ text.head?, isDigit c = false

theorem takeWhile_digits (ds : List (Fin 10)) (h : Stops text) :
    (ds.map digitByte ++ text).takeWhile isDigit = ds.map digitByte := by
  rw [List.takeWhile_append_of_pos (all_digits ds)]
  cases text with
  | nil => simp
  | cons c text =>
    rw [List.takeWhile_cons_of_neg (by rw [h c rfl]; exact Bool.false_ne_true), List.append_nil]

theorem dropWhile_digits (ds : List (Fin 10)) (h : Stops text) :
    (ds.map digitByte ++ text).dropWhile isDigit = text := by
  rw [List.dropWhile_append_of_pos (all_digits ds)]
  cases text with
  | nil => rfl
  | cons c text => rw [List.dropWhile_cons_of_neg (by rw [h c rfl]; exact Bool.false_ne_true)]

theorem exponent_text (e : Exponent) :
    exponent (e.signText ++ e.digits.map digitByte) = some (e.signText ++ e.digits.map digitByte, []) := by
  obtain ⟨d, ds, hds⟩ := List.exists_cons_of_ne_nil e.nonempty
  have hstop : Stops [] := fun _ hc => by cases hc
  have htake := takeWhile_digits e.digits hstop
  have hdrop := dropWhile_digits e.digits hstop
  rw [List.append_nil] at htake hdrop
  have hne : e.digits.map digitByte ≠ [] := mt List.map_eq_nil_iff.mp e.nonempty
  have hsign : ((e.signText ++ e.digits.map digitByte).take 1).filter
      (fun c => c == plus || c == minus) = e.signText := by
    unfold Exponent.signText
    split
    · rw [hds]
      have hdigit : ∀ d : Fin 10, (digitByte d == plus || digitByte d == minus) = false := by decide
      simp [hdigit d]
    · rfl
    · rfl
  rw [exponent]
  simp only [hsign, List.drop_left, htake, hdrop, if_neg hne]

theorem scanExponent_expText {mantissa : Bytes} {alone : Token} (lit : NumLiteral) :
    scanExponent mantissa alone lit.expText =
      (if lit.exp.isSome then .fconst (mantissa ++ lit.expText) else alone, []) := by
  unfold NumLiteral.expText
  cases lit.exp with
  | none => rfl
  | some e =>
    have hletter : e.letter = 101 ∨ e.letter = 69 := by
      unfold Exponent.letter
      cases e.upper
      · exact .inl rfl
      · exact .inr rfl
    simp only [Exponent.text, scanExponent, if_pos hletter, exponent_text, Option.isSome_some, if_true]

theorem stops_expText (lit : NumLiteral) : Stops lit.expText := by
  intro c hc
  unfold NumLiteral.expText at hc
  cases hexp : lit.exp with
  | none =>
    rw [hexp] at hc
    cases hc
  | some e =>
    rw [hexp] at hc
    cases hc
    unfold Exponent.letter
    cases e.upper <;> rfl

theorem stops_fracText (lit : NumLiteral) : Stops (lit.fracText ++ lit.expText) := by
  intro c hc
  unfold NumLiteral.fracText at hc
  cases hfrac : lit.frac with
  | none =>
    rw [hfrac] at hc
    exact stops_expText lit c hc
  | some ds =>
    rw [hfrac] at hc
    cases hc
    rfl

theorem head_ne_point (ds : List (Fin 10)) (lit : NumLiteral) :
    (ds.map digitByte ++ lit.expText).head? ≠ some point := by
  intro h
  cases ds with
  | nil =>
    have hstop := stops_expText lit
    unfold NumLiteral.expText at h
    cases hexp : lit.exp with
    | none =>
      rw [hexp] at h
      cases h
    | some e =>
      rw [hexp] at h
      have hletter : e.letter = point := Option.some.inj h
      unfold Exponent.letter at hletter
      cases hupper : e.upper <;> rw [hupper] at hletter <;> exact absurd hletter (by decide)
  | cons d ds =>
    have hdigit : digitByte d = point := Option.some.inj h
    have hisDigit := isDigit_digitByte d
    rw [hdigit] at hisDigit
    exact absurd hisDigit (by decide)

/-- What is read of a literal: an integer, or its text. -/
def NumLiteral.token (lit : NumLiteral) : Token :=
  if lit.frac.isSome || lit.exp.isSome then .fconst lit.text
  else processIntegerLiteral (lit.int.map digitByte)

theorem scanNumber_literal (lit : NumLiteral) :
    scanNumber (lit.int.map digitByte) (lit.fracText ++ lit.expText) = (lit.token, []) := by
  cases hfrac : lit.frac with
  | none =>
    have hnone : lit.fracText = [] := by rw [NumLiteral.fracText, hfrac]
    have hscan : scanNumber (lit.int.map digitByte) lit.expText =
        scanExponent (lit.int.map digitByte) (processIntegerLiteral (lit.int.map digitByte))
          lit.expText := by
      cases htext : lit.expText with
      | nil => rfl
      | cons c rest =>
        have hc : c ≠ point := by
          have hhead := head_ne_point [] lit
          rw [List.map_nil, List.nil_append, htext] at hhead
          exact fun heq => hhead (congrArg some heq)
        rw [scanNumber, if_neg fun h => hc h.1, if_neg hc]
    rw [hnone, List.nil_append, hscan, scanExponent_expText, NumLiteral.token, hfrac, NumLiteral.text,
      hnone, List.nil_append]
    rfl
  | some ds =>
    have hsome : lit.fracText = point :: ds.map digitByte := by rw [NumLiteral.fracText, hfrac]
    have hstop := stops_expText lit
    rw [hsome, List.cons_append, scanNumber, if_pos ⟨rfl, .inr (head_ne_point ds lit)⟩]
    simp only [takeWhile_digits ds hstop, dropWhile_digits ds hstop, scanExponent_expText]
    rw [NumLiteral.token, hfrac, NumLiteral.text, hsome]
    cases hexp : lit.exp with
    | none =>
      have hnone : lit.expText = [] := by rw [NumLiteral.expText, hexp]
      rw [hnone]
      simp
    | some e => simp

theorem yylex_literal (lit : NumLiteral) : yylex s lit.text = some (lit.token, []) := by
  have hnumber := scanNumber_literal lit
  cases hint : lit.int with
  | nil =>
    obtain hne | ⟨ds, hfrac, hne⟩ := lit.digits
    · exact absurd hint hne
    obtain ⟨d, ds, rfl⟩ := List.exists_cons_of_ne_nil hne
    have htext : lit.text = point :: digitByte d :: (ds.map digitByte ++ lit.expText) := by
      rw [NumLiteral.text, hint, NumLiteral.fracText, hfrac]
      rfl
    have hscan : scanNumber [] lit.text = (lit.token, []) := by
      rw [NumLiteral.text, hint, List.map_nil, List.nil_append]
      rw [hint] at hnumber
      exact hnumber
    have hlex : yylex s lit.text = some (scanNumber [] lit.text) := by
      rw [htext, yylex, if_neg (by decide), if_neg (by decide), if_neg (by decide), if_pos rfl,
        if_pos (by rw [List.head?_cons, Option.any_some]; exact isDigit_digitByte d)]
    rw [hlex, hscan]
  | cons d ds =>
    have hstop := stops_fracText lit
    have hlex : yylex s lit.text =
        some (scanNumber (lit.text.takeWhile isDigit) (lit.text.dropWhile isDigit)) := by
      have hother : ∀ d : Fin 10, digitByte d ≠ dquote ∧ digitByte d ≠ quote := by decide
      have htext : lit.text =
          digitByte d :: (ds.map digitByte ++ (lit.fracText ++ lit.expText)) := by
        rw [NumLiteral.text, hint]
        rfl
      rw [htext, yylex, if_neg (hother d).1, if_neg (hother d).2, if_pos (isDigit_digitByte d)]
    rw [hlex, NumLiteral.text, takeWhile_digits lit.int hstop, dropWhile_digits lit.int hstop, hnumber]

/-- A minus is a token of its own. -/
theorem yylex_minus (lit : NumLiteral) :
    yylex s (minus :: lit.text) = some (.char minus, lit.text) ∧ lit.text ≠ [] := by
  have hhead : ∃ c rest, lit.text = c :: rest ∧ opChars.contains c = false := by
    unfold NumLiteral.text
    cases hint : lit.int with
    | nil =>
      obtain hne | ⟨ds, hfrac, hne⟩ := lit.digits
      · exact absurd hint hne
      · exact ⟨point, ds.map digitByte ++ lit.expText, by rw [NumLiteral.fracText, hfrac]; rfl, rfl⟩
    | cons d ds =>
      have hdigit : ∀ d : Fin 10, opChars.contains (digitByte d) = false := by decide
      exact ⟨digitByte d, _, rfl, hdigit d⟩
  obtain ⟨c, rest, htext, hc⟩ := hhead
  have hrun : (minus :: c :: rest).takeWhile (opChars.contains ·) = [minus] := by
    rw [List.takeWhile_cons_of_pos (by rfl),
      List.takeWhile_cons_of_neg (by rw [hc]; exact Bool.false_ne_true)]
  refine ⟨?_, by rw [htext]; exact List.cons_ne_nil _ _⟩
  rw [htext]
  change scanOperator (minus :: c :: rest) = _
  unfold scanOperator
  rw [hrun]
  rfl

/-! ## Digits -/

theorem strtoul_digits (ds : List (Fin 10)) (n : Nat) :
    (ds.map digitByte).foldl (fun n c => 10 * n + hexval c) n =
      ds.foldl (fun n d => 10 * n + d.val) n := by
  have hval : ∀ d : Fin 10, hexval (digitByte d) = d.val := by decide
  rw [List.foldl_map]
  simp only [hval]

theorem foldr_digits (ds : List Nat) (h : ∀ d ∈ ds, d < 10) :
    ds.foldr (fun d n => 10 * n + (Fin.ofNat 10 d).val) 0 = Nat.ofDigits 10 ds := by
  induction ds with
  | nil => rfl
  | cons d ds ih =>
    obtain ⟨hd, hds⟩ := List.forall_mem_cons.mp h
    have hval : (Fin.ofNat 10 d).val = d := Nat.mod_eq_of_lt hd
    rw [List.foldr_cons, ih hds, hval, Nat.ofDigits_cons, Nat.add_comm]

theorem value_ofNat (n : Nat) : (NumLiteral.ofNat n).value = n := by
  change ((NumLiteral.decimal n).map digitByte).foldl (fun n c => 10 * n + hexval c) 0 = n
  rw [strtoul_digits, NumLiteral.decimal]
  split
  · next h =>
    rw [h]
    rfl
  · rw [List.foldl_map, List.foldl_reverse,
      foldr_digits _ fun d hd => Nat.digits_lt_base (by omega) hd, Nat.ofDigits_digits]

theorem token_ofNat (n : Nat) : (NumLiteral.ofNat n).token =
    if n < 2 ^ 31 then .iconst n else .fconst (NumLiteral.ofNat n).text := by
  have hvalue : strtoul 10 ((NumLiteral.ofNat n).int.map digitByte) = n := value_ofNat n
  have htext : (NumLiteral.ofNat n).text = (NumLiteral.ofNat n).int.map digitByte := List.append_nil _
  change processIntegerLiteral _ = _
  rw [processIntegerLiteral, htext]
  simp only [hvalue]

/-! ## Constants -/

theorem denotes_integer {ival : Int} :
    (∃ t, yylex s (sprintfLd ival) = some (t, []) ∧ t.Denotes (.integer ival)) ↔
      0 ≤ ival ∧ ival < 2 ^ 31 := by
  unfold sprintfLd
  by_cases hneg : ival < 0
  · rw [if_pos hneg]
    refine iff_of_false (fun ⟨t, ht, _⟩ => ?_) (by omega)
    obtain ⟨hlex, hne⟩ := @yylex_minus s (NumLiteral.ofNat ival.natAbs)
    rw [hlex] at ht
    exact hne (congrArg Prod.snd (Option.some.inj ht))
  · rw [if_neg hneg, yylex_literal, token_ofNat]
    constructor
    · intro ⟨t, ht, hdenotes⟩
      cases ht
      split at hdenotes
      · omega
      · exact hdenotes.elim
    · intro ⟨hpos, hlt⟩
      refine ⟨_, rfl, ?_⟩
      rw [if_pos (by omega)]
      change (ival.natAbs : Int) = ival
      omega

theorem denotes_float {negated : Bool} {lit : NumLiteral} :
    (∃ t, yylex s (floatText negated lit) = some (t, []) ∧ t.Denotes (.float negated lit)) ↔
      negated = false ∧ (lit.frac.isSome = true ∨ lit.exp.isSome = true ∨ 2 ^ 31 ≤ lit.value) := by
  cases negated with
  | true =>
    refine iff_of_false (fun ⟨t, ht, _⟩ => ?_) nofun
    obtain ⟨hlex, hne⟩ := @yylex_minus s lit
    change yylex s (minus :: lit.text) = _ at ht
    rw [hlex] at ht
    exact hne (congrArg Prod.snd (Option.some.inj ht))
  | false =>
    change (∃ t, yylex s lit.text = some (t, []) ∧ _) ↔ _
    rw [yylex_literal, and_iff_right rfl]
    have htoken : (∃ t, some (lit.token, ([] : Bytes)) = some (t, []) ∧ t.Denotes (.float false lit)) ↔
        lit.token.Denotes (.float false lit) := by
      constructor
      · intro ⟨t, ht, hdenotes⟩
        cases ht
        exact hdenotes
      · intro hdenotes
        exact ⟨_, rfl, hdenotes⟩
    rw [htoken, NumLiteral.token]
    cases hfrac : lit.frac with
    | some ds => simp [Token.Denotes, floatText]
    | none =>
      cases hexp : lit.exp with
      | some e => simp [Token.Denotes, floatText]
      | none =>
        have htext : lit.text = lit.int.map digitByte := by
          rw [NumLiteral.text, NumLiteral.fracText, hfrac, NumLiteral.expText, hexp]
          exact List.append_nil _
        simp only [Option.isSome_none, Bool.or_self, Bool.false_eq_true, if_false, false_or,
          processIntegerLiteral, NumLiteral.value]
        split
        · next hlt => exact iff_of_false id (by omega)
        · next hle => exact iff_of_true htext.symm (by omega)

theorem denotes_string :
    (∃ t, yylex s (quote :: (escapeString str ++ [quote])) = some (t, []) ∧ t.Denotes (.string str)) ↔
      s.standardConformingStrings = false ∨ backslash ∉ str := by
  rw [yylex_string]
  cases s.standardConformingStrings with
  | false => exact iff_of_true ⟨_, rfl, rfl⟩ (.inl rfl)
  | true =>
    rw [if_pos rfl, ← doubled_eq_self]
    constructor
    · intro ⟨t, ht, hdenotes⟩
      cases ht
      exact .inr hdenotes
    · intro h
      exact ⟨_, rfl, h.resolve_left nofun⟩

theorem not_denotes_bitString : ¬ ∃ t, yylex s [] = some (t, []) ∧ t.Denotes (.bitString str) :=
  fun ⟨_, ht, _⟩ => by cases ht

theorem outAConst_eq (val : Value) : outAConst val = outValue val := by
  cases val <;> rfl

theorem denotes_value {val : Value} (hval : val ≠ .null) :
    (∃ t, yylex s (outValue val) = some (t, []) ∧ t.Denotes val) ↔
      val.Kept s.standardConformingStrings := by
  cases val with
  | integer ival => exact denotes_integer
  | float negated lit => exact denotes_float
  | string str => exact denotes_string
  | bitString str => exact iff_of_false not_denotes_bitString id
  | null => exact absurd rfl hval

end

end PgPool.Deparse
