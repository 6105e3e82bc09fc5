import PgPool.ConfigFile.Kept

/-!
# The lexer on what is printed

Words, numbers and strings that are printed with something after them are read as one token each.
-/

namespace PgPool.ConfigFile

open Pcp.Codec (Bytes ascii digitChar)

/-! ## The lexer on a text -/

theorem longest_eq {front back : List (Token × Nat)} {token : Token} {n : Nat}
    (hfront : ∀ r ∈ front, r.2 < n) (hback : ∀ r ∈ back, r.2 ≤ n) :
    longest (front ++ (token, n) :: back) = (token, n) := by
  have hle : ∀ {l : List (Token × Nat)}, (∀ r ∈ l, r.2 ≤ n) → (longest l).2 ≤ n := by
    intro l
    induction l with
    | nil => exact fun _ => Nat.zero_le n
    | cons r l ih =>
      intro hall
      rw [longest]
      split
      · exact hall r List.mem_cons_self
      · exact ih fun r hr => hall r (List.mem_cons_of_mem _ hr)
  induction front with
  | nil => rw [List.nil_append, longest, if_pos (hle hback)]
  | cons r front ih =>
    rw [List.cons_append, longest, ih fun r hr => hfront r (List.mem_cons_of_mem _ hr),
      if_neg (Nat.not_le.2 (hfront r List.mem_cons_self))]

/-- A byte is always matched. -/
theorem longest_pos (s : Bytes) : 0 < (longest (rules s)).2 := by
  have hge : ∀ {l : List (Token × Nat)} {r : Token × Nat}, r ∈ l → r.2 ≤ (longest l).2 := by
    intro l
    induction l with
    | nil => exact fun h => absurd h List.not_mem_nil
    | cons a l ih =>
      intro r hr
      rw [longest]
      obtain rfl | hr := List.mem_cons.1 hr
      · split
        · exact Nat.le_refl _
        · omega
      · have := ih hr
        split
        · omega
        · exact this
  have hmem : (Token.parseError, 1) ∈ rules s := by simp [rules]
  exact hge hmem

theorem length_dropWhile_lt {p : UInt8 → Bool} {s : Bytes} (h : s.takeWhile p ≠ []) :
    (s.dropWhile p).length < s.length := by
  have hsplit := congrArg List.length (List.takeWhile_append_dropWhile (p := p) (l := s))
  have hpos := List.length_pos_iff.2 h
  rw [List.length_append] at hsplit
  omega

theorem lex_cons (fuel : Nat) (c : UInt8) (s : Bytes) :
    lex (fuel + 1) (c :: s) =
      if (c :: s).takeWhile isBlank ≠ [] then lex fuel ((c :: s).dropWhile isBlank)
      else if 0 < matchComment (c :: s) then lex fuel ((c :: s).drop (matchComment (c :: s)))
      else ((longest (rules (c :: s))).1, (c :: s).take (longest (rules (c :: s))).2) ::
        lex fuel ((c :: s).drop (longest (rules (c :: s))).2) := by
  simp only [lex]

/-- Fuel for every byte is enough. -/
theorem lex_fuel : ∀ (fuel fuel' : Nat) (s : Bytes), s.length ≤ fuel → s.length ≤ fuel' →
    lex fuel s = lex fuel' s := by
  intro fuel
  induction fuel with
  | zero =>
    intro fuel' s hs _
    obtain rfl := List.length_eq_zero_iff.1 (Nat.le_zero.1 hs)
    cases fuel' <;> rfl
  | succ fuel ih =>
    intro fuel' s hs hs'
    cases s with
    | nil => cases fuel' <;> rfl
    | cons c s =>
      cases fuel' with
      | zero => simp at hs'
      | succ fuel' =>
        rw [List.length_cons, Nat.add_le_add_iff_right] at hs hs'
        rw [lex_cons, lex_cons]
        split
        · rename_i hblank
          have hlt := length_dropWhile_lt hblank
          rw [List.length_cons] at hlt
          exact ih fuel' _ (by omega) (by omega)
        · split
          · exact ih fuel' _ (by rw [List.length_drop, List.length_cons]; omega)
              (by rw [List.length_drop, List.length_cons]; omega)
          · have hpos := longest_pos (c :: s)
            rw [ih fuel' _ (by rw [List.length_drop, List.length_cons]; omega)
              (by rw [List.length_drop, List.length_cons]; omega)]

/-- A token is read. -/
theorem tokens_token {c : UInt8} {s rest : Bytes} {token : Token} (hblank : isBlank c = false)
    (hcomment : c ≠ 35)
    (hlongest : longest (rules (c :: s ++ rest)) = (token, (c :: s).length)) :
    tokens (c :: s ++ rest) = (token, c :: s) :: tokens rest := by
  have hmatch : ¬ 0 < matchComment (c :: (s ++ rest)) := by simp [matchComment, hcomment]
  have hwhile : ¬ (c :: (s ++ rest)).takeWhile isBlank ≠ [] := by simp [hblank]
  rw [List.cons_append] at hlongest
  have hdrop : (c :: s ++ rest).drop (c :: s).length = rest := List.drop_left
  have htake : (c :: s ++ rest).take (c :: s).length = c :: s := List.take_left
  rw [List.cons_append] at hdrop htake
  rw [tokens, List.cons_append, List.length_cons, lex_cons, if_neg hwhile, if_neg hmatch, hlongest]
  simp only [hdrop, htake]
  rw [lex_fuel _ rest.length rest (by rw [List.length_append]; omega) (Nat.le_refl _)]
  rfl

/-- A blank before something else is passed over. -/
theorem tokens_blank {c : UInt8} {s : Bytes} (hblank : isBlank c = false) :
    tokens (32 :: c :: s) = tokens (c :: s) := by
  have hwhile : (32 :: c :: s).takeWhile isBlank ≠ [] := by simp [isBlank]
  have hdrop : (32 :: c :: s).dropWhile isBlank = c :: s := by
    rw [List.dropWhile_cons_of_pos (by decide), List.dropWhile_cons_of_neg (by simp [hblank])]
  rw [tokens, List.length_cons, lex_cons, if_pos hwhile, hdrop]
  rfl

/-- A comment is passed over, to the end of its line. -/
theorem tokens_comment {text : Bytes} (hline : 10 ∉ text) (rest : Bytes) :
    tokens (35 :: (text ++ 10 :: rest)) = tokens (10 :: rest) := by
  have hspan : span (· != 10) (text ++ 10 :: rest) = text.length := by
    have hall : ∀ c ∈ text, (c != 10) = true := fun c hc => by
      simpa using fun heq : c = 10 => hline (heq ▸ hc)
    rw [span, List.takeWhile_append_of_pos hall]
    simp
  have hmatch : matchComment (35 :: (text ++ 10 :: rest)) = 1 + text.length := by
    simp [matchComment, hspan]
  have hwhile : ¬ (35 :: (text ++ 10 :: rest)).takeWhile isBlank ≠ [] := by
    simp [isBlank]
  have hdrop : (35 :: (text ++ 10 :: rest)).drop (1 + text.length) = 10 :: rest := by
    rw [Nat.add_comm, List.drop_succ_cons, List.drop_left]
  rw [tokens, List.length_cons, lex_cons, if_neg hwhile, if_pos (by omega), hmatch, hdrop]
  exact lex_fuel _ _ _ (by simp) (Nat.le_refl _)

/-! ## Words, numbers and strings -/

theorem span_append {p : UInt8 → Bool} {w rest : Bytes} (hw : ∀ c ∈ w, p c = true)
    (hrest : ∀ c ∈ rest.head?, p c = false) : span p (w ++ rest) = w.length := by
  rw [span, List.takeWhile_append_of_pos hw]
  cases rest with
  | nil => simp
  | cons c rest =>
    have hc : p c = false := hrest c rfl
    simp [hc]

/-- A letter is nothing else. -/
theorem not_of_isLetter {c : UInt8} (h : isLetter c = true) :
    isDigit c = false ∧ isBlank c = false ∧
      c ∉ ([10, 35, 39, 43, 45, 46, 48, 61] : List UInt8) := by
  have hlt := c.toNat_lt
  simp only [isLetter, isDigit, isBlank, Bool.or_eq_true, Bool.and_eq_true, decide_eq_true_eq,
    beq_iff_eq, UInt8.le_iff_toNat_le, Bool.and_eq_false_iff, decide_eq_false_iff_not, Bool.or_eq_false_iff,
    beq_eq_false_iff_ne, List.mem_cons, List.not_mem_nil, or_false, ← UInt8.toNat_inj,
    UInt8.reduceToNat, ne_eq] at h ⊢
  omega

theorem not_of_isDigit {c : UInt8} (h : isDigit c = true) :
    isLetter c = false ∧ isBlank c = false ∧
      c ∉ ([10, 35, 39, 43, 45, 46, 61, 120] : List UInt8) := by
  have hlt := c.toNat_lt
  simp only [isLetter, isDigit, isBlank, Bool.and_eq_true, decide_eq_true_eq,
    UInt8.le_iff_toNat_le, Bool.and_eq_false_iff, decide_eq_false_iff_not, Bool.or_eq_false_iff,
    beq_eq_false_iff_ne, List.mem_cons, List.not_mem_nil, or_false, ← UInt8.toNat_inj,
    UInt8.reduceToNat, ne_eq] at h ⊢
  omega

/-- A word before a blank or the end of the line is a key. -/
theorem tokens_key {c d : UInt8} {w rest : Bytes} (hc : isLetter c = true)
    (hw : ∀ c ∈ w, isLetterOrDigit c = true) (hd : d = 32 ∨ d = 10) :
    tokens (c :: w ++ d :: rest) = (.key, c :: w) :: tokens (d :: rest) := by
  obtain ⟨hdigit, hblank, hother⟩ := not_of_isLetter hc
  simp only [List.mem_cons, List.not_mem_nil, or_false, not_or] at hother
  obtain ⟨hnl, hhash, hquote, hplus, hminus, hdot, hzero, heq⟩ := hother
  have hend : isLetterOrDigit d = false ∧ isWordMark d = false := by
    obtain rfl | rfl := hd <;> decide
  have hkey : span isLetterOrDigit (w ++ d :: rest) = w.length :=
    span_append hw fun x hx => by cases hx; exact hend.1
  have hunquoted : span (fun c => isLetterOrDigit c || isWordMark c) (w ++ d :: rest) = w.length :=
    span_append (fun x hx => by simp [hw x hx]) fun x hx => by cases hx; simp [hend]
  refine tokens_token hblank hhash ?_
  have hspan (s : Bytes) : span isDigit (c :: s) = 0 := by simp [span, hdigit]
  have hlength : 1 + w.length = (c :: w).length := by rw [List.length_cons, Nat.add_comm]
  have hrules : rules (c :: (w ++ d :: rest)) =
      [(.eol, 0)] ++ (.key, (c :: w).length) ::
        [(.string, 0), (.unquotedString, (c :: w).length), (.integer, 0), (.real, 0), (.equals, 0),
          (.parseError, 1)] := by
    simp [rules, matchKey, matchUnquoted, matchString, matchInteger, matchReal, sign, hspan, hc, hnl,
      hkey, hunquoted, hlength, hquote, hplus, hminus, hdot, hzero, heq]
  rw [List.cons_append, hrules]
  exact longest_eq (by simp) (by simp)

theorem tokens_equals (rest : Bytes) : tokens (61 :: rest) = (.equals, [61]) :: tokens rest := by
  have hrules : rules (61 :: rest) =
      [(.eol, 0), (.key, 0), (.string, 0), (.unquotedString, 0), (.integer, 0), (.real, 0)] ++
        (.equals, 1) :: [(.parseError, 1)] := by
    simp [rules, matchKey, matchUnquoted, matchString, matchInteger, matchReal, sign, span, isLetter,
      isDigit]
  refine tokens_token (c := 61) (s := []) rfl (by decide) ?_
  rw [List.cons_append, List.nil_append, hrules]
  exact longest_eq (by simp) (by simp)

theorem tokens_eol (rest : Bytes) : tokens (10 :: rest) = (.eol, [10]) :: tokens rest := by
  have hrules : rules (10 :: rest) =
      [] ++ (.eol, 1) :: [(.key, 0), (.string, 0), (.unquotedString, 0), (.integer, 0), (.real, 0),
        (.equals, 0), (.parseError, 1)] := by
    simp [rules, matchKey, matchUnquoted, matchString, matchInteger, matchReal, sign, span, isLetter,
      isDigit]
  refine tokens_token (c := 10) (s := []) rfl (by decide) ?_
  rw [List.cons_append, List.nil_append, hrules]
  exact longest_eq (by simp) (by simp)

/-- Text that a string can hold. -/
def Quotable (body : Bytes) : Prop := 39 ∉ body ∧ 10 ∉ body ∧ body.getLast? ≠ some 92

instance (body : Bytes) : Decidable (Quotable body) :=
  inferInstanceAs (Decidable (39 ∉ body ∧ 10 ∉ body ∧ body.getLast? ≠ some 92))

theorem matchBody_append {body : Bytes} (hbody : Quotable body) {n : Nat} {backslash : Bool}
    (hnil : body = [] → backslash = false) (rest : Bytes) :
    matchBody n backslash (body ++ 39 :: rest) = n + body.length + 1 := by
  induction body generalizing n backslash with
  | nil =>
    rw [hnil rfl]
    rfl
  | cons c body ih =>
    obtain ⟨hquote, hnl, hlast⟩ := hbody
    rw [List.mem_cons, not_or] at hquote hnl
    have hrest : Quotable body := by
      refine ⟨hquote.2, hnl.2, ?_⟩
      cases body with
      | nil => simp
      | cons d body => rwa [List.getLast?_cons_cons] at hlast
    have hc : body = [] → (c == 92) = false := by
      rintro rfl
      simpa using hlast
    rw [List.cons_append, matchBody, if_neg (Ne.symm hnl.1), if_neg (Ne.symm hquote.1),
      ih hrest hc, List.length_cons]
    omega

theorem tokens_string {body : Bytes} (hbody : Quotable body) (rest : Bytes) :
    tokens (39 :: (body ++ [39]) ++ rest) = (.string, 39 :: (body ++ [39])) :: tokens rest := by
  have hmatch : matchBody 1 false (body ++ 39 :: rest) = (39 :: (body ++ [39])).length := by
    rw [matchBody_append hbody (fun _ => rfl), List.length_cons, List.length_append]
    simp only [List.length_cons, List.length_nil]
    omega
  have hrules : rules (39 :: (body ++ 39 :: rest)) =
      [(.eol, 0), (.key, 0)] ++ (.string, (39 :: (body ++ [39])).length) ::
        [(.unquotedString, 0), (.integer, 0), (.real, 0), (.equals, 0), (.parseError, 1)] := by
    rw [← hmatch]
    simp [rules, matchKey, matchUnquoted, matchString, matchInteger, matchReal, sign, span, isLetter,
      isDigit]
  refine tokens_token rfl (by decide) ?_
  rw [List.cons_append, List.append_assoc, List.singleton_append, hrules]
  exact longest_eq (by simp) (by simp)

/-- The digits of a number. -/
theorem text_digits (n : Nat) : ∃ c w, Radix.text digitChar 10 n = c :: w ∧ isDigit c = true ∧
    ∀ c ∈ w, isDigit c = true := by
  have hall : ∀ c ∈ Radix.text digitChar 10 n, isDigit c = true := by
    intro c hc
    obtain ⟨d, hd, rfl⟩ := List.mem_map.1 hc
    have hdigit : ∀ d < 10, isDigit (digitChar d) = true := by decide
    exact hdigit d (Radix.lt_of_mem_digits (by decide) d hd)
  obtain ⟨d, ds, hds⟩ := List.exists_cons_of_ne_nil (Radix.digits_ne_nil 10 n)
  rw [Radix.text, hds, List.map_cons] at hall ⊢
  exact ⟨_, _, rfl, hall _ List.mem_cons_self, fun c hc => hall c (List.mem_cons_of_mem _ hc)⟩

theorem matchInteger_digits {c d : UInt8} {w : Bytes} (rest : Bytes) (hc : isDigit c = true)
    (hw : ∀ c ∈ w, isDigit c = true) (hd : d = 32 ∨ d = 10) :
    matchInteger (c :: w ++ d :: rest) = (c :: w).length ∧ matchReal (c :: w ++ d :: rest) = 0 ∧
      matchInteger (45 :: (c :: w ++ d :: rest)) = (45 :: c :: w).length ∧
      matchReal (45 :: (c :: w ++ d :: rest)) = 0 := by
  obtain ⟨-, -, hother⟩ := not_of_isDigit hc
  simp only [List.mem_cons, List.not_mem_nil, or_false, not_or] at hother
  obtain ⟨-, -, -, hplus, hminus, hdot, -, -⟩ := hother
  have hend : isDigit d = false ∧ d ≠ 46 ∧ d ≠ 120 := by
    obtain rfl | rfl := hd <;> decide
  have hspan : span isDigit (c :: w ++ d :: rest) = (c :: w).length :=
    span_append (by simpa [hc] using hw) fun x hx => by cases hx; exact hend.1
  have hhex : (c :: w ++ d :: rest).take 2 ≠ [48, 120] := by
    cases w with
    | nil => simp [hend.2.2]
    | cons e w =>
      have he := (not_of_isDigit (hw e List.mem_cons_self)).2.2
      simp only [List.mem_cons, List.not_mem_nil, or_false, not_or] at he
      simp [he]
  have hsign : sign (c :: w ++ d :: rest) = 0 := by simp [sign, hplus, hminus]
  have hsign' : sign (45 :: (c :: w ++ d :: rest)) = 1 := by simp [sign]
  have hdrop : (c :: w ++ d :: rest).drop (c :: w).length = d :: rest := List.drop_left
  refine ⟨?_, ?_, ?_, ?_⟩
  · rw [matchInteger, hsign, List.drop_zero, hspan, if_neg hhex]
    simp
  · simp only [matchReal, hsign, List.drop_zero, hspan, Nat.zero_add, hdrop, if_neg hend.2.1]
  · rw [matchInteger, hsign', List.drop_one, List.tail_cons, hspan, if_neg hhex]
    simp [Nat.add_comm]
  · have htail : (45 :: (c :: w ++ d :: rest)).drop 1 = c :: w ++ d :: rest := rfl
    have hdrop' : (45 :: (c :: w ++ d :: rest)).drop (1 + (c :: w).length) = d :: rest := by
      rw [← List.drop_drop, htail, hdrop]
    simp only [matchReal, hsign', htail, hspan, hdrop', if_neg hend.2.1]

theorem tokens_number {d : UInt8} (n : Int) (hd : d = 32 ∨ d = 10) (rest : Bytes) :
    tokens (Pcp.Codec.decimal n ++ d :: rest) = (.integer, Pcp.Codec.decimal n) :: tokens (d :: rest) := by
  obtain ⟨c, w, htext, hc, hw⟩ := text_digits n.natAbs
  obtain ⟨hinteger, hreal, hinteger', hreal'⟩ := matchInteger_digits rest hc hw hd
  obtain ⟨hletter, hblank, hother⟩ := not_of_isDigit hc
  simp only [List.mem_cons, List.not_mem_nil, or_false, not_or] at hother
  obtain ⟨hnl, hhash, hquote, -, -, -, heq, -⟩ := hother
  rw [Pcp.Codec.decimal, htext]
  split
  · have hrules : rules (45 :: (c :: w ++ d :: rest)) =
        [(.eol, 0), (.key, 0), (.string, 0), (.unquotedString, 0)] ++
          (.integer, (45 :: c :: w).length) :: [(.real, 0), (.equals, 0), (.parseError, 1)] := by
      rw [rules, hinteger', hreal']
      simp [matchKey, matchUnquoted, matchString, isLetter]
    refine tokens_token (c := 45) rfl (by decide) ?_
    rw [List.cons_append, hrules]
    exact longest_eq (by simp) (by simp)
  · have hrules : rules (c :: w ++ d :: rest) =
        [(.eol, 0), (.key, 0), (.string, 0), (.unquotedString, 0)] ++
          (.integer, (c :: w).length) :: [(.real, 0), (.equals, 0), (.parseError, 1)] := by
      rw [rules, hinteger, hreal]
      simp [matchKey, matchUnquoted, matchString, hletter, hnl, hquote, heq]
    refine tokens_token hblank hhash ?_
    rw [hrules]
    exact longest_eq (by simp) (by simp)

end PgPool.ConfigFile
