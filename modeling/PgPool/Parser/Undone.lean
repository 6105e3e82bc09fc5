import PgPool.Parser.Composed

/-!
# What the scanner makes of quoted text

A literal is read whatever follows it, and no literal is longer, or has more quotes, than its text allows.
-/

namespace PgPool.Deparse

variable {s : Settings} {str text rest body : Bytes} {fuel : Nat}

/-! ## What is written is read -/

/-- A literal that ends in front of this text goes on nowhere. -/
def Closes (rest : Bytes) : Prop := rest.head? ≠ some quote ∧ quotecontinue (rest.length + 1) rest = none

/-- A string with every quote twice. -/
def quotesDoubled (str : Bytes) : Bytes := str.flatMap fun c => if c = quote then [quote, quote] else [c]

theorem quotesDoubled_cons {c : UInt8} :
    quotesDoubled (c :: str) = (if c = quote then [quote, quote] else [c]) ++ quotesDoubled str :=
  List.flatMap_cons ..

theorem scanXq_quotesDoubled (hrest : Closes rest) (hfuel : (quotesDoubled str).length < fuel) :
    scanXq fuel (quotesDoubled str ++ quote :: rest) = some (str, rest) := by
  induction str generalizing fuel with
  | nil =>
    obtain ⟨fuel, rfl⟩ : ∃ n, fuel = n + 1 := Nat.exists_eq_succ_of_ne_zero (Nat.ne_of_gt hfuel)
    change scanXq (fuel + 1) (quote :: rest) = _
    rw [scanXq, if_pos rfl, if_neg hrest.1, hrest.2]
  | cons c str ih =>
    rw [quotesDoubled_cons, List.length_append] at hfuel
    rw [quotesDoubled_cons]
    by_cases hquote : c = quote
    · rw [if_pos hquote] at hfuel ⊢
      obtain ⟨fuel, rfl⟩ : ∃ n, fuel = n + 1 := Nat.exists_eq_succ_of_ne_zero (by omega)
      have htail := @ih fuel (by simp only [List.length_cons, List.length_nil] at hfuel; omega)
      simp only [List.cons_append, List.nil_append, scanXq, List.head?_cons, List.tail_cons, if_true, htail,
        hquote]
      rfl
    · rw [if_neg hquote] at hfuel ⊢
      obtain ⟨fuel, rfl⟩ : ∃ n, fuel = n + 1 := Nat.exists_eq_succ_of_ne_zero (by omega)
      have htail := @ih fuel (by simp only [List.length_cons, List.length_nil] at hfuel; omega)
      simp only [List.cons_append, List.nil_append, scanXq, if_neg hquote, htail]
      rfl

theorem scanXe_escapeString (hrest : Closes rest) (hfuel : (escapeString str).length < fuel) :
    scanXe s fuel (escapeString str ++ quote :: rest) = some (str, false, rest) := by
  induction str generalizing fuel with
  | nil =>
    obtain ⟨fuel, rfl⟩ : ∃ n, fuel = n + 1 := Nat.exists_eq_succ_of_ne_zero (Nat.ne_of_gt hfuel)
    change scanXe s (fuel + 1) (quote :: rest) = _
    rw [scanXe, if_pos rfl, if_neg hrest.1, hrest.2]
  | cons c str ih =>
    rw [escapeString_cons, List.length_append] at hfuel
    rw [escapeString_cons]
    obtain ⟨fuel, rfl⟩ : ∃ n, fuel = n + 1 := Nat.exists_eq_succ_of_ne_zero (by omega)
    by_cases hquote : c = quote
    · rw [if_pos hquote] at hfuel ⊢
      have htail := @ih fuel (by simp only [List.length_cons, List.length_nil] at hfuel; omega)
      simp only [List.cons_append, List.nil_append, scanXe, List.head?_cons, List.tail_cons, if_true,
        htail, hquote]
      rfl
    · rw [if_neg hquote] at hfuel ⊢
      by_cases hback : c = backslash
      · rw [if_pos hback] at hfuel ⊢
        have htail := @ih fuel (by simp only [List.length_cons, List.length_nil] at hfuel; omega)
        simp only [List.cons_append, List.nil_append, scanXe, if_neg (Ne.symm quote_ne_backslash),
          if_true, escape_backslash, htail, hback]
        rfl
      · rw [if_neg hback] at hfuel ⊢
        have htail := @ih fuel (by simp only [List.length_cons, List.length_nil] at hfuel; omega)
        simp only [List.cons_append, List.nil_append, scanXe, if_neg hquote, if_neg hback, htail]
        rfl

/-- A string as it is to be written for a scanner. -/
def writtenFor (s : Settings) (str : Bytes) : Bytes :=
  if s.standardConformingStrings then quotesDoubled str else escapeString str

theorem scanString_writtenFor (hrest : Closes rest) :
    scanString s (writtenFor s str ++ quote :: rest) = some (.sconst str, rest) := by
  have hfuel : ∀ t : Bytes, t.length < (t ++ quote :: rest).length + 1 := by
    intro t
    rw [List.length_append]
    omega
  unfold scanString writtenFor
  cases s.standardConformingStrings with
  | true =>
    simp only [if_true]
    rw [scanXq_quotesDoubled hrest (hfuel _)]
    rfl
  | false =>
    simp only [Bool.false_eq_true, if_false]
    rw [scanXe_escapeString hrest (hfuel _)]
    rfl

theorem scanXd_requoted {name : Bytes} (hrest : rest.head? ≠ some dquote) :
    scanXd (requoted name ++ dquote :: rest) = some (name, rest) := by
  induction name with
  | nil =>
    change scanXd (dquote :: rest) = _
    cases rest with
    | nil => rfl
    | cons c rest =>
      rw [scanXd, if_pos rfl, if_neg fun hc => hrest (congrArg some hc)]
  | cons c name ih =>
    rw [requoted_cons]
    by_cases hc : c = dquote
    · rw [if_pos hc, hc]
      simp only [List.cons_append, List.nil_append, scanXd, if_true, ih]
      rfl
    · rw [if_neg hc]
      obtain ⟨c', tail, htail⟩ : ∃ c' tail, requoted name ++ dquote :: rest = c' :: tail :=
        List.exists_cons_of_ne_nil (by simp)
      rw [List.singleton_append, List.cons_append, htail, scanXd, if_neg hc, ← htail, ih]
      rfl

/-! ## What a literal can be -/

/-- The bytes that are counted: all, or all but backslashes. -/
def counted (full : Bool) (c : UInt8) : Bool := full || c != backslash

/-- The bytes of a string that take an escape. -/
def escapes (std : Bool) (text : Bytes) : Nat := text.count quote + if std then 0 else text.count backslash

/-- What a text can say: each escape takes two bytes for at most one. -/
structure Cost (full std : Bool) (text str : Bytes) : Prop where
  shrinks : 2 * str.countP (counted full) + escapes std text + text.count dquote ≤
    2 * text.countP (counted full) + str.count dquote
  covers : str.countP (counted full) + escapes std str ≤ text.countP (counted full)

variable {full std : Bool}

theorem escapes_append {text' : Bytes} :
    escapes std (text ++ text') = escapes std text + escapes std text' := by
  unfold escapes
  rw [List.count_append, List.count_append]
  split
  · omega
  · omega

namespace Cost

theorem nil : Cost full std [] [] := ⟨by simp [escapes], by simp [escapes]⟩

theorem append {text' str' : Bytes} (h : Cost full std text str) (h' : Cost full std text' str') :
    Cost full std (text ++ text') (str ++ str') := by
  have h1 := h.shrinks
  have h2 := h'.shrinks
  have h3 := h.covers
  have h4 := h'.covers
  constructor
  · rw [escapes_append, List.countP_append, List.countP_append, List.count_append, List.count_append]
    omega
  · rw [escapes_append, List.countP_append, List.countP_append]
    omega

end Cost

theorem escapes_le (h : std = true ∨ full = true) :
    escapes std text + text.count dquote ≤ text.countP (counted full) := by
  induction text with
  | nil => simp [escapes]
  | cons c text ih =>
    rw [show c :: text = [c] ++ text from rfl, escapes_append, List.count_append, List.countP_append]
    have hone : escapes std [c] + [c].count dquote ≤ [c].countP (counted full) := by
      by_cases hq : c = quote
      · subst hq
        revert h
        cases std <;> cases full <;> decide
      · by_cases hd : c = dquote
        · subst hd
          revert h
          cases std <;> cases full <;> decide
        · by_cases hb : c = backslash
          · subst hb
            revert h
            cases std <;> cases full <;> decide
          · simp [escapes, hq, hd, hb]
    omega

namespace Cost

/-- A byte that stands for itself. -/
theorem single {c : UInt8} (hq : c ≠ quote) (hb : std = true ∨ c ≠ backslash) : Cost full std [c] [c] := by
  have hescapes : escapes std [c] = 0 := by
    unfold escapes
    rw [List.count_eq_zero.mpr (by simpa using Ne.symm hq)]
    obtain rfl | hb := hb
    · rfl
    · rw [List.count_eq_zero.mpr (by simpa using Ne.symm hb), ite_self]
  exact ⟨by omega, by omega⟩

/-- A gap says nothing. -/
theorem gap (h : std = true ∨ full = true) (text : Bytes) : Cost full std text [] := by
  have hle : escapes std text + text.count dquote ≤ text.countP (counted full) := escapes_le h
  refine ⟨?_, ?_⟩
  · rw [List.countP_nil, List.count_nil]
    omega
  · rw [List.countP_nil]
    simp [escapes]

/-- A text of at least twice the length can say everything. -/
theorem of_length (h : 2 * str.length ≤ text.length) : Cost true std text str := by
  have hall : ∀ t : Bytes, t.countP (counted true) = t.length := fun t => by
    rw [List.countP_eq_length]
    exact fun _ _ => rfl
  have htext : escapes std text + text.count dquote ≤ text.countP (counted true) := escapes_le (Or.inr rfl)
  have hstr : escapes std str + str.count dquote ≤ str.countP (counted true) := escapes_le (Or.inr rfl)
  rw [hall] at htext hstr
  refine ⟨?_, ?_⟩
  · rw [hall, hall]
    omega
  · rw [hall, hall]
    omega

theorem pair : Cost full std [quote, quote] [quote] := by
  cases full <;> cases std <;> exact ⟨by decide, by decide⟩

end Cost

/-! ## What is scanned -/

theorem afterComment_suffix (text : Bytes) : afterComment text <:+ text := List.dropWhile_suffix _

theorem specialThenQuote_suffix (h : specialThenQuote fuel text = some rest) : rest <:+ text := by
  induction fuel generalizing text with
  | zero => cases h
  | succ fuel ih =>
    unfold specialThenQuote at h
    split at h
    · split at h
      · cases h
      · rename_i c rest' hafter
        have hsuffix : rest' <:+ afterComment text := hafter ▸ List.suffix_cons c rest'
        exact (ih h).trans (hsuffix.trans (afterComment_suffix text))
    · split at h
      · cases h
      · split at h
        · exact (ih h).trans (List.suffix_cons _ _)
        · split at h
          · cases h
            exact List.suffix_cons _ _
          · cases h

theorem quotecontinue_suffix (h : quotecontinue fuel text = some rest) : rest <:+ text := by
  induction fuel generalizing text with
  | zero => cases h
  | succ fuel ih =>
    unfold quotecontinue at h
    split at h
    · exact (ih h).trans (afterComment_suffix text)
    · split at h
      · cases h
      · split at h
        · exact (specialThenQuote_suffix h).trans (List.suffix_cons _ _)
        · split at h
          · exact (ih h).trans (List.suffix_cons _ _)
          · cases h

/-- A string that the standard reads. -/
theorem cost_of_scanXq (h : scanXq fuel text = some (str, rest)) :
    ∃ body, text = body ++ quote :: rest ∧ Cost full true body str := by
  induction fuel generalizing text str with
  | zero => cases h
  | succ fuel ih =>
    cases text with
    | nil => cases h
    | cons c tail =>
      rw [scanXq] at h
      split at h
      · rename_i hc
        split at h
        · rename_i hhead
          obtain ⟨tail', rfl⟩ : ∃ tail', tail = quote :: tail' := by
            cases tail with
            | nil => cases hhead
            | cons d tail' =>
              cases hhead
              exact ⟨tail', rfl⟩
          obtain ⟨⟨str', rest'⟩, hscan, hpair⟩ := Option.map_eq_some_iff.mp h
          cases hpair
          obtain ⟨body, hbody, hcost⟩ := ih hscan
          refine ⟨[quote, quote] ++ body, ?_, Cost.pair.append hcost⟩
          rw [hc, show tail' = _ from hbody]
          rfl
        · split at h
          · rename_i rest' hcontinue
            obtain ⟨gap, hgap⟩ := quotecontinue_suffix hcontinue
            obtain ⟨body, hbody, hcost⟩ := ih h
            refine ⟨(c :: gap) ++ body, ?_, (Cost.gap (Or.inl rfl) _).append hcost⟩
            simp only [← hgap, hbody, List.cons_append, List.append_assoc]
          · cases h
            exact ⟨[], by rw [hc]; rfl, Cost.nil⟩
      · rename_i hc
        obtain ⟨⟨str', rest'⟩, hscan, hpair⟩ := Option.map_eq_some_iff.mp h
        cases hpair
        obtain ⟨body, hbody, hcost⟩ := ih hscan
        exact ⟨c :: body, by rw [hbody]; rfl, (Cost.single hc (Or.inl rfl)).append hcost⟩

/-! ## Escapes -/

theorem xeunicode_suffix {value : Nat} (h : xeunicode text = some (value, rest)) : rest <:+ text := by
  cases text with
  | nil => cases h
  | cons c text =>
    simp only [xeunicode, Option.ite_none_right_eq_some] at h
    obtain ⟨-, heq⟩ := h
    cases heq
    exact (List.drop_suffix _ text).trans (List.suffix_cons c text)

theorem unicodeEscape_suffix {value : Nat} (h : unicodeEscape text = some (value, rest)) : rest <:+ text := by
  unfold unicodeEscape at h
  split at h
  · cases h
  · rename_i c first hfirst
    have hsuffix := xeunicode_suffix hfirst
    split at h
    · split at h
      · rename_i d tail
        split at h
        · rename_i c' second hsecond
          obtain ⟨-, hsecond⟩ := Option.ite_none_right_eq_some.mp hsecond
          obtain ⟨-, heq⟩ := Option.ite_none_right_eq_some.mp h
          cases heq
          exact (xeunicode_suffix hsecond).trans ((List.suffix_cons d tail).trans hsuffix)
        · cases h
      · cases h
    · obtain ⟨-, heq⟩ := Option.ite_none_left_eq_some.mp h
      cases heq
      exact hsuffix

/-- An escape takes at least twice as many bytes as it stands for. -/
theorem length_escape {bytes : Bytes} {saw : Bool} (hne : text ≠ [])
    (h : escape s text = some (bytes, saw, rest)) :
    ∃ taken, text = taken ++ rest ∧ 2 * bytes.length ≤ taken.length + 1 := by
  obtain ⟨c, tail, rfl⟩ := List.exists_cons_of_ne_nil hne
  unfold escape at h
  simp only at h
  split at h
  · cases h
    refine ⟨(c :: tail).take (c :: (tail.take 2).takeWhile isOctal).length, ?_, ?_⟩
    · rw [List.take_append_drop]
    · have htwo : 2 * [((strtoul 8 (c :: (tail.take 2).takeWhile isOctal)).toUInt8)].length = 2 := rfl
      rw [htwo, List.length_take, List.length_cons, List.length_cons]
      omega
  · split at h
    · cases h
      refine ⟨c :: tail.take ((tail.take 2).takeWhile isHex).length, ?_, ?_⟩
      · rw [List.cons_append, List.take_append_drop]
      · simp
    · split at h
      · split at h
        · rename_i value rest' hunicode
          split at h
          · cases h
            obtain ⟨taken, htaken⟩ := unicodeEscape_suffix hunicode
            have hlength := unicodeEscape_length hunicode
            have hutf8 := length_unicodeToUtf8 value
            rw [← htaken, List.length_append] at hlength
            refine ⟨taken, htaken.symm, ?_⟩
            split at hutf8
            · omega
            · omega
          · cases h
        · cases h
      · cases h
        exact ⟨[c], rfl, by simp⟩

/-- A string with escapes. -/
theorem cost_of_scanXe {saw : Bool} (h : scanXe s fuel text = some (str, saw, rest)) :
    ∃ body, text = body ++ quote :: rest ∧ Cost true std body str := by
  induction fuel generalizing text str saw with
  | zero => cases h
  | succ fuel ih =>
    cases text with
    | nil => cases h
    | cons c tail =>
      rw [scanXe] at h
      split at h
      · rename_i hc
        split at h
        · rename_i hhead
          obtain ⟨tail', rfl⟩ : ∃ tail', tail = quote :: tail' := by
            cases tail with
            | nil => cases hhead
            | cons d tail' =>
              cases hhead
              exact ⟨tail', rfl⟩
          obtain ⟨⟨str', saw', rest'⟩, hscan, hpair⟩ := Option.map_eq_some_iff.mp h
          cases hpair
          obtain ⟨body, hbody, hcost⟩ := ih hscan
          refine ⟨[quote, quote] ++ body, ?_, Cost.pair.append hcost⟩
          rw [hc, show tail' = _ from hbody]
          rfl
        · split at h
          · rename_i rest' hcontinue
            obtain ⟨gap, hgap⟩ := quotecontinue_suffix hcontinue
            obtain ⟨body, hbody, hcost⟩ := ih h
            refine ⟨(c :: gap) ++ body, ?_, (Cost.gap (Or.inr rfl) _).append hcost⟩
            simp only [← hgap, hbody, List.cons_append, List.append_assoc]
          · cases h
            exact ⟨[], by rw [hc]; rfl, Cost.nil⟩
      · rename_i hquote
        split at h
        · rename_i hc
          split at h
          · rename_i bytes saw' rest' hescape
            obtain ⟨⟨str', saw'', rest''⟩, hscan, hpair⟩ := Option.map_eq_some_iff.mp h
            cases hpair
            obtain ⟨body, hbody, hcost⟩ := ih hscan
            have hne : tail ≠ [] := by
              rintro rfl
              cases hescape
              cases fuel <;> cases hscan
            obtain ⟨taken, htaken, hlen⟩ := length_escape hne hescape
            refine ⟨(c :: taken) ++ body, ?_, (Cost.of_length ?_).append hcost⟩
            · simp only [htaken, hbody, List.cons_append, List.append_assoc]
            · rw [List.length_cons]
              exact hlen
          · cases h
        · rename_i hback
          obtain ⟨⟨str', saw', rest'⟩, hscan, hpair⟩ := Option.map_eq_some_iff.mp h
          cases hpair
          obtain ⟨body, hbody, hcost⟩ := ih hscan
          exact ⟨c :: body, by rw [hbody]; rfl, (Cost.single hquote (Or.inr hback)).append hcost⟩

theorem cost_of_scanString (hfull : s.standardConformingStrings = true ∨ full = true)
    (h : scanString s text = some (.sconst str, rest)) :
    ∃ body, text = body ++ quote :: rest ∧ Cost full s.standardConformingStrings body str := by
  unfold scanString at h
  cases hstd : s.standardConformingStrings with
  | true =>
    rw [hstd, if_pos rfl] at h
    obtain ⟨⟨str', rest'⟩, hscan, hpair⟩ := Option.map_eq_some_iff.mp h
    cases hpair
    exact cost_of_scanXq hscan
  | false =>
    obtain hfull | rfl := hfull
    · rw [hstd] at hfull
      cases hfull
    · rw [hstd, if_neg Bool.false_ne_true] at h
      split at h
      · rename_i hscan
        split at h
        · cases h
        · cases h
          exact cost_of_scanXe hscan
      · cases h

/-- A delimited identifier. -/
theorem countP_requoted (name : Bytes) :
    (requoted name).countP (counted full) = name.countP (counted full) + name.count dquote := by
  induction name with
  | nil => rfl
  | cons c name ih =>
    rw [requoted_cons, List.countP_append, ih, List.countP_cons, List.count_cons]
    by_cases hc : c = dquote
    · subst hc
      have htwo : [dquote, dquote].countP (counted full) = 2 := by cases full <;> decide
      have hone : counted full dquote = true := by cases full <;> decide
      rw [if_pos rfl, htwo, if_pos hone, if_pos (beq_self_eq_true dquote)]
      omega
    · have hne : (c == dquote) = false := by simpa using hc
      rw [if_neg hc, hne, if_neg Bool.false_ne_true, List.countP_singleton]
      omega

theorem count_requoted (name : Bytes) : (requoted name).count dquote = 2 * name.count dquote := by
  induction name with
  | nil => rfl
  | cons c name ih =>
    rw [requoted_cons, List.count_append, ih, List.count_cons]
    by_cases hc : c = dquote
    · rw [if_pos hc, hc, if_pos (beq_self_eq_true dquote)]
      have htwo : [dquote, dquote].count dquote = 2 := rfl
      omega
    · rw [if_neg hc, if_neg (by simpa using hc), List.count_eq_zero.mpr (by simpa using Ne.symm hc)]
      omega

end PgPool.Deparse
