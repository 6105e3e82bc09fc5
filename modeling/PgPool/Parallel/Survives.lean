import PgPool.Parallel.Nested

/-!
# What survives the quoting

Names and constants that are kept come through the three layers as they are.  Conversely the text that is read
cannot be as long as it has to be if one of them has a quote that is not accounted for.
-/

namespace PgPool.Nested

open PgPool.Deparse

variable {sys node : Settings} {keyword : Bytes → Bool} {engine : Engine} {part : Part}
  {text rest str : Bytes}

/-! ## Rendering -/

/-- Plain text is left alone by what doubles quotes and backslashes. -/
structure Doubles (double : Bytes → Bytes) : Prop where
  append : ∀ a b, double (a ++ b) = double a ++ double b
  plain : ∀ a : Bytes, (∀ c ∈ a, c ≠ quote ∧ c ≠ dquote ∧ c ≠ backslash) → double a = a

theorem doubles_flatMap {f : UInt8 → Bytes} (h : ∀ c, c ≠ quote → c ≠ dquote → c ≠ backslash → f c = [c]) :
    Doubles (List.flatMap f) := by
  refine ⟨fun a b => List.flatMap_append, fun a ha => ?_⟩
  induction a with
  | nil => rfl
  | cons c a ih =>
    obtain ⟨hq, hd, hb⟩ := ha c List.mem_cons_self
    rw [List.flatMap_cons, h c hq hd hb, ih fun c hc => ha c (List.mem_cons_of_mem _ hc)]
    rfl

theorem doubles_requoted : Doubles requoted := doubles_flatMap fun _ _ hd _ => if_neg hd

theorem doubles_writtenFor : Doubles (writtenFor sys) := by
  unfold writtenFor
  cases sys.standardConformingStrings with
  | true => exact doubles_flatMap fun _ hq _ _ => if_neg hq
  | false => exact doubles_flatMap fun _ hq _ hb => (if_neg hq).trans (if_neg hb)

theorem Doubles.comp {f g : Bytes → Bytes} (hf : Doubles f) (hg : Doubles g) : Doubles fun a => f (g a) :=
  ⟨fun a b => by rw [hg.append, hf.append], fun a ha => by rw [hg.plain a ha, hf.plain a ha]⟩

/-- The names and constants of a part. -/
def itemsBody (body : List (Item × Separator)) (last : Option Item) : List Item :=
  body.map Prod.fst ++ last.toList

theorem Plain.bytes (p : Plain) : ∀ c ∈ p.text, c ≠ quote ∧ c ≠ dquote ∧ c ≠ backslash :=
  fun c hc => ⟨(p.plain c hc).1, (p.plain c hc).2.1, (p.plain c hc).2.2.1⟩

theorem Doubles.renderBody {double : Bytes → Bytes} (h : Doubles double) {out out' : Item → Bytes}
    {body : List (Item × Separator)} {last : Option Item}
    (hout : ∀ item ∈ itemsBody body last, double (out item) = out' item) :
    double (renderBody out body last) = Nested.renderBody out' body last := by
  induction body with
  | nil =>
    cases last with
    | none => exact h.plain [] fun c hc => absurd hc List.not_mem_nil
    | some item => exact hout item (List.mem_singleton_self item)
  | cons pair body ih =>
    obtain ⟨item, separator⟩ := pair
    unfold Nested.renderBody
    rw [h.append, h.append, hout item List.mem_cons_self, h.plain _ separator.bytes,
      ih fun item hitem => hout item (List.mem_cons_of_mem _ hitem)]

theorem Doubles.render {double : Bytes → Bytes} (h : Doubles double) {out out' : Item → Bytes}
    (hout : ∀ item ∈ itemsBody part.body part.last, double (out item) = out' item) :
    double (part.render out) = part.render out' := by
  unfold Part.render
  rw [h.append, h.plain _ part.head.bytes, h.renderBody hout]

/-! ## The first two layers -/

/-- A constant as the system database hands it on. -/
def handedOn (sys : Settings) (str : Bytes) : Bytes :=
  if sys.standardConformingStrings then doubled str else str

/-- A name or a constant in the argument. -/
def Item.arg (sys : Settings) : Item → Bytes
  | .name n => n
  | .delimited n => dquote :: (n ++ [dquote])
  | .const str => quote :: (handedOn sys str ++ [quote])

/-- Names and constants for which the scanners find all quotes where they have been put. -/
def Item.Clean (sys node : Settings) (keyword : Bytes → Bool) : Item → Prop
  | .name n => Nameable keyword n
  | .delimited n => quote ∉ n ∧ dquote ∉ n ∧ (sys.standardConformingStrings = false → backslash ∉ n)
  | .const str => quote ∉ str ∧ dquote ∉ str ∧
      (sys.standardConformingStrings = false → node.standardConformingStrings = false → backslash ∉ str)

theorem isIdentCont_plain {c : UInt8} (h : isIdentCont c = true) :
    c ≠ quote ∧ c ≠ dquote ∧ c ≠ backslash := by
  refine ⟨?_, ?_, ?_⟩
  · rintro rfl
    exact absurd h (by decide)
  · rintro rfl
    exact absurd h (by decide)
  · rintro rfl
    exact absurd h (by decide)

theorem Nameable.plain {name : Bytes} (h : Nameable keyword name) :
    ∀ c ∈ name, c ≠ quote ∧ c ≠ dquote ∧ c ≠ backslash := fun c hc => isIdentCont_plain (h.2.1 c hc).1

theorem requoted_eq_self {name : Bytes} (h : dquote ∉ name) : requoted name = name := by
  induction name with
  | nil => rfl
  | cons c name ih =>
    obtain ⟨hc, hname⟩ := not_or.mp (mt List.mem_cons.mpr h)
    rw [requoted_cons, if_neg (Ne.symm hc), ih hname]
    rfl

theorem quotesDoubled_eq_self (h : quote ∉ str) : quotesDoubled str = str := by
  induction str with
  | nil => rfl
  | cons c str ih =>
    obtain ⟨hc, hstr⟩ := not_or.mp (mt List.mem_cons.mpr h)
    rw [quotesDoubled_cons, if_neg (Ne.symm hc), ih hstr]
    rfl

theorem escapeString_eq_self (h : quote ∉ str) (h' : backslash ∉ str) : escapeString str = str := by
  induction str with
  | nil => rfl
  | cons c str ih =>
    obtain ⟨hc, hstr⟩ := not_or.mp (mt List.mem_cons.mpr h)
    obtain ⟨hc', hstr'⟩ := not_or.mp (mt List.mem_cons.mpr h')
    rw [escapeString_cons, if_neg (Ne.symm hc), if_neg (Ne.symm hc'), ih hstr hstr']
    rfl

theorem quotesDoubled_doubled (str : Bytes) : quotesDoubled (doubled str) = escapeString str := by
  induction str with
  | nil => rfl
  | cons c str ih =>
    rw [doubled_cons, escapeString_cons, ← ih]
    by_cases hquote : c = quote
    · subst hquote
      rfl
    · by_cases hback : c = backslash
      · subst hback
        rfl
      · rw [if_neg hback, if_neg hquote, List.singleton_append, quotesDoubled_cons, if_neg hquote]

theorem writtenFor_handedOn (str : Bytes) : writtenFor sys (handedOn sys str) = escapeString str := by
  unfold writtenFor handedOn
  cases sys.standardConformingStrings with
  | true => exact quotesDoubled_doubled str
  | false => rfl

theorem writtenFor_eq_self (h : quote ∉ str) (h' : sys.standardConformingStrings = false → backslash ∉ str) :
    writtenFor sys str = str := by
  unfold writtenFor
  cases hstd : sys.standardConformingStrings with
  | true => exact quotesDoubled_eq_self h
  | false => exact escapeString_eq_self h (h' hstd)

theorem writtenFor_quote : writtenFor sys [quote] = [quote, quote] := by
  unfold writtenFor
  cases sys.standardConformingStrings <;> rfl

theorem mem_doubled {c : UInt8} (h : c ∉ str) : c ∉ doubled str := by
  intro hmem
  obtain ⟨d, hd, hc⟩ := List.mem_flatMap.mp hmem
  split at hc
  · rename_i hback
    have : c = backslash := by simpa using hc
    exact h (this.trans hback.symm ▸ hd)
  · exact h (List.mem_singleton.mp hc ▸ hd)

theorem not_mem_handedOn {c : UInt8} (h : c ∉ str) : c ∉ handedOn sys str := by
  unfold handedOn
  split
  · exact mem_doubled h
  · exact h

/-- What is printed for an item is what the two layers undo. -/
theorem Item.Clean.written {item : Item} (h : item.Clean sys node keyword) :
    writtenFor sys (requoted (item.arg sys)) = item.text := by
  cases item with
  | name n => rw [Item.arg, doubles_requoted.plain n h.plain, doubles_writtenFor.plain n h.plain, Item.text]
  | delimited n =>
    obtain ⟨hq, hd, hb⟩ := h
    have harg : requoted (dquote :: (n ++ [dquote])) = [dquote, dquote] ++ (n ++ [dquote, dquote]) := by
      rw [requoted_cons, if_pos rfl, doubles_requoted.append, requoted_eq_self hd]
      rfl
    have hdquote : ∀ c ∈ [dquote, dquote], c ≠ quote := by simp [quote, dquote]
    rw [Item.arg, harg, writtenFor_eq_self]
    · rfl
    · intro hmem
      simp only [List.mem_append] at hmem
      obtain hmem | hmem | hmem := hmem
      · exact hdquote _ hmem rfl
      · exact hq hmem
      · exact hdquote _ hmem rfl
    · intro hstd hmem
      have hback : backslash ∉ [dquote, dquote] := by decide
      simp only [List.mem_append] at hmem
      obtain hmem | hmem | hmem := hmem
      · exact hback hmem
      · exact hb hstd hmem
      · exact hback hmem
  | const str =>
    have hd : dquote ∉ quote :: (handedOn sys str ++ [quote]) := by
      have hstr : dquote ∉ handedOn sys str := not_mem_handedOn h.2.1
      simp only [List.mem_cons, List.mem_append, List.not_mem_nil, or_false, not_or]
      exact ⟨by decide, hstr, by decide⟩
    rw [Item.arg, requoted_eq_self hd, ← List.singleton_append, doubles_writtenFor.append,
      doubles_writtenFor.append, writtenFor_handedOn, writtenFor_quote]
    rfl

theorem of_scanIdentifier {arg name : Bytes} (h : scanIdentifier arg = some (.ident name, rest)) :
    name ≠ [] ∧ arg = requoted name ++ dquote :: rest := by
  unfold scanIdentifier at h
  split at h
  · cases h
  · rename_i name' rest' hne hfound
    cases h
    exact ⟨hne, scanXd_eq_some hfound⟩
  · cases h

theorem scanIdentifier_requoted {name : Bytes} (hne : name ≠ []) (hrest : rest.head? ≠ some dquote) :
    scanIdentifier (requoted name ++ dquote :: rest) = some (.ident name, rest) := by
  obtain ⟨c, tail, rfl⟩ := List.exists_cons_of_ne_nil hne
  unfold scanIdentifier
  rw [scanXd_requoted hrest]

/-- What has been undone is the argument without its quotes. -/
theorem undo_eq_some : undo sys engine part rest = some text ↔
    ∃ name, scanString sys (literal engine part ++ quote :: rest) =
        some (.sconst (engine.header ++ (requoted name ++ [dquote, paren])), rest) ∧
      name ≠ [] ∧ text = strip (name ++ [dquote]) := by
  unfold undo Engine.argument
  constructor
  · intro h
    split at h
    · rename_i query rest' hquery
      rw [Option.ite_none_right_eq_some] at h
      obtain ⟨rfl, h⟩ := h
      obtain ⟨arg, harg, h⟩ := Option.bind_eq_some_iff.mp h
      obtain ⟨⟨arg', rfl⟩, harg⟩ := Option.ite_none_right_eq_some.mp harg
      obtain rfl : arg' = arg := by simpa using harg
      split at h
      · rename_i name c hname
        obtain ⟨rfl, htext⟩ := Option.ite_none_right_eq_some.mp h
        obtain ⟨hne, rfl⟩ := of_scanIdentifier hname
        exact ⟨name, hquery, hne, (Option.some.inj htext).symm⟩
      · cases h
    · cases h
  · intro ⟨name, hquery, hne, htext⟩
    have hname : scanIdentifier (requoted name ++ dquote :: [paren]) = some (.ident name, [paren]) :=
      scanIdentifier_requoted hne (by decide)
    simp only [hquery, if_true, List.prefix_append, List.drop_left, Option.bind_some, hname]
    rw [htext]
    rfl

/-- The header of a call, for each of the two functions. -/
theorem writtenFor_header : writtenFor sys engine.header = engine.header := by
  cases engine <;> exact writtenFor_eq_self (by decide) fun _ => by decide

theorem writtenFor_footer : writtenFor sys [dquote, paren] = [dquote, paren] :=
  writtenFor_eq_self (by decide) fun _ => by decide

theorem Part.render_ne_nil (out : Item → Bytes) : part.render out ≠ [] := by
  unfold Part.render
  exact fun h => part.nonempty (List.append_eq_nil_iff.mp h).1

/-- The layers are undone for names and constants that have no quotes of their own. -/
theorem undo_render (h : Closes rest)
    (hclean : ∀ item ∈ itemsBody part.body part.last, item.Clean sys node keyword) :
    undo sys engine part rest = some (strip (part.render (Item.arg sys) ++ [dquote])) := by
  have hwritten : literal engine part =
      writtenFor sys (engine.header ++ (requoted (part.render (Item.arg sys)) ++ [dquote, paren])) := by
    have hpart := (doubles_writtenFor.comp doubles_requoted).render fun item hitem =>
      (hclean item hitem).written
    rw [doubles_writtenFor.append, doubles_writtenFor.append, writtenFor_header, writtenFor_footer, hpart]
    rfl
  exact undo_eq_some.mpr ⟨_, hwritten.symm ▸ scanString_writtenFor h, Part.render_ne_nil _, rfl⟩

/-! ## The third layer -/

/-- What `delimistr` leaves of an item: the quotes of an empty constant become one. -/
def Item.left (sys : Settings) : Item → Bytes
  | .const [] => [quote]
  | item => item.arg sys

theorem strip_plain {a t : Bytes} (h : quote ∉ a) (ht : t ≠ []) : strip (a ++ t) = a ++ strip t := by
  induction a with
  | nil => rfl
  | cons c a ih =>
    obtain ⟨hc, ha⟩ := not_or.mp (mt List.mem_cons.mpr h)
    obtain ⟨c', rest, hrest⟩ : ∃ c' rest, a ++ t = c' :: rest :=
      List.exists_cons_of_ne_nil (by simp [ht])
    rw [List.cons_append, hrest, strip, if_neg fun hboth => hc hboth.1.symm, ← hrest, ih ha]
    rfl

theorem strip_quote {c : UInt8} {t : Bytes} (h : c ≠ quote) :
    strip (quote :: c :: t) = quote :: strip (c :: t) := by
  rw [strip, if_neg fun hboth => h hboth.2]

theorem strip_item {item : Item} {c : UInt8} {t : Bytes} (h : item.Clean sys node keyword) (hc : c ≠ quote) :
    strip (item.arg sys ++ c :: t) = item.left sys ++ strip (c :: t) := by
  have hne : c :: t ≠ [] := List.cons_ne_nil _ _
  cases item with
  | name n => exact strip_plain (fun hmem => (Nameable.plain h _ hmem).1 rfl) hne
  | delimited n =>
    have hq : quote ∉ dquote :: (n ++ [dquote]) := by
      simp only [List.mem_cons, List.mem_append, List.not_mem_nil, or_false, not_or]
      exact ⟨by decide, h.1, by decide⟩
    exact strip_plain hq hne
  | const str =>
    cases str with
    | nil =>
      have hempty : handedOn sys [] = [] := by
        unfold handedOn
        split <;> rfl
      change strip (quote :: (handedOn sys [] ++ [quote]) ++ c :: t) = _
      rw [hempty]
      change strip (quote :: quote :: c :: t) = _
      rw [strip, if_pos ⟨rfl, rfl⟩]
      rfl
    | cons b str =>
      have hq : quote ∉ handedOn sys (b :: str) := not_mem_handedOn h.1
      obtain ⟨d, tail, hd⟩ : ∃ d tail, handedOn sys (b :: str) = d :: tail := by
        unfold handedOn
        split
        · rw [doubled_cons]
          split
          · exact ⟨_, _, rfl⟩
          · exact ⟨_, _, rfl⟩
        · exact ⟨_, _, rfl⟩
      have hdq : d ≠ quote := fun hdq => hq (hd ▸ hdq ▸ List.mem_cons_self)
      change strip ((quote :: (handedOn sys (b :: str) ++ [quote])) ++ c :: t) =
        (quote :: (handedOn sys (b :: str) ++ [quote])) ++ strip (c :: t)
      rw [hd] at hq ⊢
      simp only [List.cons_append, List.append_assoc, List.nil_append]
      rw [strip_quote hdq]
      have htail := strip_plain (t := quote :: c :: t) hq (List.cons_ne_nil _ _)
      simp only [List.cons_append] at htail
      rw [htail, strip_quote hc]

theorem strip_renderBody {body : List (Item × Separator)} {last : Option Item}
    (hclean : ∀ item ∈ itemsBody body last, item.Clean sys node keyword) :
    strip (renderBody (Item.arg sys) body last ++ [dquote]) = renderBody (Item.left sys) body last := by
  induction body with
  | nil =>
    cases last with
    | none => rfl
    | some item =>
      have hone := hclean item (List.mem_singleton_self item)
      exact (strip_item (c := dquote) (t := []) hone (by decide)).trans (List.append_nil _)
  | cons pair body ih =>
    obtain ⟨item, separator⟩ := pair
    obtain ⟨c, tail, hseparator, -⟩ := separator.starts
    have hquote : quote ∉ separator.text := fun hmem => (separator.bytes _ hmem).1 rfl
    have hc : c ≠ quote := fun hc => hquote (hseparator ▸ hc ▸ List.mem_cons_self)
    have hplain := strip_plain (t := renderBody (Item.arg sys) body last ++ [dquote]) hquote (by simp)
    have hitem := strip_item (t := tail ++ (renderBody (Item.arg sys) body last ++ [dquote]))
      (hclean item List.mem_cons_self) hc
    have hrest := ih fun item hitem => hclean item (List.mem_cons_of_mem _ hitem)
    unfold renderBody
    rw [List.append_assoc, List.append_assoc]
    rw [hseparator, List.cons_append] at hplain ⊢
    rw [hitem, hplain, hrest]

theorem strip_render (hclean : ∀ item ∈ itemsBody part.body part.last, item.Clean sys node keyword) :
    strip (part.render (Item.arg sys) ++ [dquote]) = part.render (Item.left sys) := by
  have hquote : quote ∉ part.head.text := fun hmem => (part.head.bytes _ hmem).1 rfl
  unfold Part.render
  rw [List.append_assoc, strip_plain hquote (by simp), strip_renderBody hclean]

/-! ## Lengths -/

variable (sys node) in
/-- Not all scanners read backslashes as they are. -/
def full : Bool := !(sys.standardConformingStrings && node.standardConformingStrings)

variable (sys node) in
/-- The quotes of an item that are not accounted for, and the backslashes where they are escapes for both
scanners. -/
def Item.excess : Item → Nat
  | .name _ => 0
  | .delimited n => escapes sys.standardConformingStrings n + 3 * n.count dquote
  | .const str => 2 * str.count quote + str.count dquote +
      if sys.standardConformingStrings || node.standardConformingStrings then 0 else 2 * str.count backslash

variable (sys node) in
/-- The length of a text, less what escapes take. -/
def room (text : Bytes) : Int :=
  2 * text.countP (counted (full sys node)) - escapes sys.standardConformingStrings text - text.count dquote

theorem room_append {text' : Bytes} :
    room sys node (text ++ text') = room sys node text + room sys node text' := by
  unfold room
  rw [escapes_append, List.countP_append, List.count_append]
  push_cast
  ring

theorem countP_escapeString {full : Bool} (str : Bytes) : (escapeString str).countP (counted full) =
    str.countP (counted full) + str.count quote + if full then str.count backslash else 0 := by
  induction str with
  | nil => cases full <;> rfl
  | cons c str ih =>
    rw [escapeString_cons, List.countP_append, ih, List.countP_cons, List.count_cons, List.count_cons]
    by_cases hquote : c = quote
    · subst hquote
      cases full <;> simp [counted, quote, backslash]
      all_goals omega
    · by_cases hback : c = backslash
      · subst hback
        cases full <;> simp [counted, quote, backslash]
        omega
      · cases full <;> simp [counted, hquote, hback] <;> omega

theorem escapes_escapeString {std : Bool} (str : Bytes) :
    escapes std (escapeString str) = 2 * escapes std str := by
  induction str with
  | nil => cases std <;> rfl
  | cons c str ih =>
    have hcons : escapes std (c :: str) = escapes std [c] + escapes std str :=
      show escapes std ([c] ++ str) = _ from escapes_append
    rw [escapeString_cons, escapes_append, ih, hcons]
    by_cases hquote : c = quote
    · subst hquote
      cases std <;> simp [escapes, quote, backslash]
      all_goals omega
    · by_cases hback : c = backslash
      · subst hback
        cases std <;> simp [escapes, quote, backslash]
        omega
      · cases std <;> simp [escapes, hquote, hback]

theorem count_dquote_escapeString (str : Bytes) : (escapeString str).count dquote = str.count dquote := by
  induction str with
  | nil => rfl
  | cons c str ih =>
    rw [escapeString_cons, List.count_append, ih, List.count_cons]
    by_cases hquote : c = quote
    · subst hquote
      simp [quote, dquote]
    · by_cases hback : c = backslash
      · subst hback
        simp [quote, backslash, dquote]
      · rw [if_neg hquote, if_neg hback, List.count_singleton]
        omega

theorem room_plain {a : Bytes} (h : ∀ c ∈ a, c ≠ quote ∧ c ≠ dquote ∧ c ≠ backslash) :
    room sys node a = 2 * a.countP (counted (full sys node)) := by
  have hq : a.count quote = 0 := List.count_eq_zero.mpr fun hmem => (h _ hmem).1 rfl
  have hd : a.count dquote = 0 := List.count_eq_zero.mpr fun hmem => (h _ hmem).2.1 rfl
  have hb : a.count backslash = 0 := List.count_eq_zero.mpr fun hmem => (h _ hmem).2.2 rfl
  unfold room escapes
  rw [hq, hd, hb, ite_self]
  omega

theorem scanName_eq_some {word : Bytes} (h : scanName keyword text = some (word, rest)) :
    ∃ x, text = x ++ rest ∧ (∀ c ∈ x, isIdentCont c = true) ∧ word = x.map downcase ∧
      text.head?.any isIdentStart = true ∧ keyword word = false ∧ isUnicode word rest = false := by
  unfold scanName at h
  obtain ⟨⟨hstart, hkeyword, hunicode⟩, hpair⟩ := Option.ite_none_right_eq_some.mp h
  cases hpair
  exact ⟨text.takeWhile isIdentCont, (List.takeWhile_append_dropWhile).symm,
    fun c hc => List.all_eq_true.mp List.all_takeWhile c hc, rfl, hstart, hkeyword, hunicode⟩

theorem isIdentCont_downcase {c : UInt8} (h : isIdentCont c = true) :
    isIdentCont (downcase c) = true ∧ downcase (downcase c) = downcase c := by
  have hall : ∀ n : Fin 256, isIdentCont ⟨⟨n⟩⟩ = true →
      isIdentCont (downcase ⟨⟨n⟩⟩) = true ∧ downcase (downcase ⟨⟨n⟩⟩) = downcase ⟨⟨n⟩⟩ := by
    decide +kernel
  exact hall c.toBitVec.toFin h

theorem isIdentStart_downcase {c : UInt8} (h : isIdentStart c = true) : isIdentStart (downcase c) = true := by
  have hall : ∀ n : Fin 256, isIdentStart ⟨⟨n⟩⟩ = true → isIdentStart (downcase ⟨⟨n⟩⟩) = true := by
    decide +kernel
  exact hall c.toBitVec.toFin h

/-- What is read as a name is one. -/
theorem nameable_of_scanName {word : Bytes} (h : scanName keyword text = some (word, rest)) :
    Nameable keyword word := by
  unfold scanName at h
  obtain ⟨⟨hstart, hkeyword, -⟩, hpair⟩ := Option.ite_none_right_eq_some.mp h
  cases hpair
  refine ⟨?_, fun c hc => ?_, hkeyword⟩
  · cases text with
    | nil => cases hstart
    | cons c tail =>
      have hc : isIdentStart c = true := by simpa using hstart
      have hcont : isIdentCont c = true := by simp [isIdentCont, hc]
      rw [List.takeWhile_cons_of_pos hcont]
      simpa using isIdentStart_downcase hc
  · obtain ⟨d, hd, rfl⟩ := List.mem_map.mp hc
    exact isIdentCont_downcase (List.all_eq_true.mp List.all_takeWhile d hd)

variable (sys) in
/-- An item that is read takes its room. -/
theorem Item.ReadsAs.room_le {item : Item} (h : item.ReadsAs node keyword text rest) :
    ∃ x, text = x ++ rest ∧
      room sys node item.text + item.excess sys node ≤ 2 * x.countP (counted (full sys node)) := by
  cases item with
  | name n =>
    obtain ⟨x, htext, hx, hn, -⟩ := scanName_eq_some h
    refine ⟨x, htext, ?_⟩
    have hcont : ∀ c ∈ n, c ≠ quote ∧ c ≠ dquote ∧ c ≠ backslash := by
      intro c hc
      obtain ⟨d, hd, rfl⟩ := List.mem_map.mp (hn ▸ hc)
      exact isIdentCont_plain (isIdentCont_downcase (hx d hd)).1
    have hlen : x.countP (counted (full sys node)) = x.length := by
      refine List.countP_eq_length.mpr fun c hc => ?_
      simp [counted, (isIdentCont_plain (hx c hc)).2.2]
    have hle : n.countP (counted (full sys node)) ≤ n.length := List.countP_le_length
    have hsame : n.length = x.length := by rw [hn, List.length_map]
    rw [Item.text, room_plain hcont, Item.excess, hlen]
    omega
  | delimited n =>
    obtain ⟨t, rfl, ht⟩ := h
    obtain ⟨-, rfl⟩ := of_scanIdentifier ht
    refine ⟨dquote :: (requoted n ++ [dquote]), by simp, ?_⟩
    have hlen : (dquote :: (requoted n ++ [dquote])).countP (counted (full sys node)) =
        n.countP (counted (full sys node)) + n.count dquote + 2 := by
      rw [List.countP_cons, List.countP_append, countP_requoted, List.countP_singleton]
      simp [counted, dquote, backslash]
    have hroom : room sys node [dquote, dquote] = 2 := by
      cases sys.standardConformingStrings <;> simp [room, escapes, counted, quote, dquote, backslash]
    change room sys node ([dquote, dquote] ++ (n ++ [dquote, dquote])) + _ ≤ _
    rw [room_append, room_append, hroom, hlen, room, Item.excess]
    push_cast
    omega
  | const str =>
    obtain ⟨t, rfl, ht⟩ := h
    have hfull : node.standardConformingStrings = true ∨ full sys node = true := by
      unfold full
      cases node.standardConformingStrings <;> simp
    obtain ⟨body, rfl, hcost⟩ := cost_of_scanString hfull ht
    refine ⟨quote :: (body ++ [quote]), by simp, ?_⟩
    have hlen : (quote :: (body ++ [quote])).countP (counted (full sys node)) =
        body.countP (counted (full sys node)) + 2 := by
      rw [List.countP_cons, List.countP_append, List.countP_singleton]
      simp [counted, quote, backslash]
    have hroom : room sys node [quote, quote] = 2 := by
      cases sys.standardConformingStrings <;> simp [room, escapes, counted, quote, dquote, backslash]
    have hcovers := hcost.covers
    change room sys node ([quote, quote] ++ (escapeString str ++ [quote, quote])) + _ ≤ _
    rw [room_append, room_append, hroom, hlen, room, countP_escapeString, escapes_escapeString,
      count_dquote_escapeString, Item.excess]
    unfold escapes at hcovers ⊢
    cases hsys : sys.standardConformingStrings <;> cases hnode : node.standardConformingStrings <;>
      simp only [full, hsys, hnode, Bool.and_true, Bool.and_false, Bool.not_true, Bool.not_false,
        Bool.or_true, Bool.or_false, Bool.false_eq_true, if_true, if_false] at hcovers ⊢ <;> push_cast <;> omega

/-- The excess of all names and constants. -/
def excessBody (sys node : Settings) (body : List (Item × Separator)) (last : Option Item) : Nat :=
  ((itemsBody body last).map (Item.excess sys node)).sum

variable (sys) in
theorem ReadsBody.room_le {body : List (Item × Separator)} {last : Option Item}
    (h : ReadsBody node keyword body last text) :
    room sys node (renderBody Item.text body last) + excessBody sys node body last ≤
      2 * text.countP (counted (full sys node)) := by
  induction body generalizing text with
  | nil =>
    cases last with
    | none =>
      cases h
      simp [renderBody, room, escapes, excessBody, itemsBody]
    | some item =>
      obtain ⟨x, rfl, hx⟩ := Item.ReadsAs.room_le sys h
      simpa [renderBody, excessBody, itemsBody] using hx
  | cons pair body ih =>
    obtain ⟨item, separator⟩ := pair
    obtain ⟨rest, hitem, -, hbody⟩ := h
    obtain ⟨x, rfl, hx⟩ := Item.ReadsAs.room_le sys hitem
    have hrest := ih hbody
    have hexcess : excessBody sys node ((item, separator) :: body) last =
        item.excess sys node + excessBody sys node body last := rfl
    rw [hexcess, renderBody, room_append, room_append, room_plain separator.bytes, List.countP_append,
      List.countP_append]
    push_cast
    omega

theorem strip_sublist (str : Bytes) : (strip str).Sublist str.dropLast := by
  induction str using strip.induct with
  | case1 => exact List.Sublist.refl _
  | case2 => exact List.Sublist.refl _
  | case3 c c' rest hboth ih =>
    rw [strip, if_pos hboth, ← hboth.1, List.dropLast_cons_of_ne_nil (List.cons_ne_nil _ _)]
    refine List.Sublist.cons_cons _ (ih.trans ?_)
    cases rest with
    | nil => exact List.Sublist.refl _
    | cons d rest =>
      rw [List.dropLast_cons_of_ne_nil (List.cons_ne_nil _ _)]
      exact List.sublist_cons_self _ _
  | case4 c c' rest hboth ih =>
    rw [strip, if_neg hboth, List.dropLast_cons_of_ne_nil (List.cons_ne_nil _ _)]
    exact List.Sublist.cons_cons _ ih

/-- What is left of a part is not longer than its room. -/
theorem le_room (h : undo sys engine part rest = some text) :
    2 * text.countP (counted (full sys node)) ≤ room sys node (part.render Item.text) := by
  obtain ⟨name, hquery, -, rfl⟩ := undo_eq_some.mp h
  have hfull : sys.standardConformingStrings = true ∨ full sys node = true := by
    unfold full
    cases sys.standardConformingStrings <;> simp
  obtain ⟨body, hbody, hcost⟩ := cost_of_scanString hfull hquery
  obtain rfl : literal engine part = body := (List.append_inj' hbody rfl).1
  have hstrip : (strip (name ++ [dquote])).countP (counted (full sys node)) ≤ _ :=
    (strip_sublist (name ++ [dquote])).countP_le
  rw [List.dropLast_concat] at hstrip
  have hshrinks := hcost.shrinks
  unfold literal at hshrinks
  rw [List.countP_append, List.countP_append, List.countP_append, List.countP_append, List.count_append,
    List.count_append, List.count_append, List.count_append, escapes_append, escapes_append, countP_requoted,
    count_requoted] at hshrinks
  unfold room
  omega

theorem ReadsBody.item {body : List (Item × Separator)} {last : Option Item}
    (h : ReadsBody node keyword body last text) {item : Item} (hitem : item ∈ itemsBody body last) :
    ∃ text rest, item.ReadsAs node keyword text rest := by
  induction body generalizing text with
  | nil =>
    cases last with
    | none => exact absurd hitem List.not_mem_nil
    | some last =>
      obtain rfl := List.mem_singleton.mp hitem
      exact ⟨text, [], h⟩
  | cons pair body ih =>
    obtain ⟨first, separator⟩ := pair
    obtain ⟨rest, hfirst, -, hbody⟩ := h
    obtain rfl | hitem := List.mem_cons.mp hitem
    · exact ⟨_, _, hfirst⟩
    · exact ih hbody hitem

/-- No item has an excess if the part survives. -/
theorem excess_eq_zero (hundo : undo sys engine part rest = some text) (hreads : part.Reads node keyword text)
    {item : Item} (hitem : item ∈ itemsBody part.body part.last) : item.excess sys node = 0 := by
  obtain ⟨body, rfl, -, hbody⟩ := hreads
  have hroom : 2 * (part.head.text ++ body).countP (counted (full sys node)) ≤
      room sys node (part.render Item.text) := by exact_mod_cast le_room hundo
  have hle := hbody.room_le sys
  unfold Part.render at hroom
  rw [room_append, room_plain part.head.bytes, List.countP_append] at hroom
  push_cast at hroom
  have hsum : excessBody sys node part.body part.last = 0 := by omega
  have hitem' : item.excess sys node ∈ (itemsBody part.body part.last).map (Item.excess sys node) :=
    List.mem_map_of_mem hitem
  exact List.sum_eq_zero_iff_forall_eq_nat.mp hsum _ hitem'

theorem clean_of_survives (hundo : undo sys engine part rest = some text)
    (hreads : part.Reads node keyword text) {item : Item} (hitem : item ∈ itemsBody part.body part.last) :
    item.Clean sys node keyword := by
  have hexcess := excess_eq_zero hundo hreads hitem
  cases item with
  | name n =>
    obtain ⟨_, -, -, hbody⟩ := hreads
    obtain ⟨text, rest, hname⟩ := hbody.item hitem
    exact nameable_of_scanName hname
  | delimited n =>
    simp only [Item.excess, escapes, Nat.add_eq_zero_iff, Nat.mul_eq_zero] at hexcess
    refine ⟨List.count_eq_zero.mp hexcess.1.1, List.count_eq_zero.mp (by omega), fun hsys => ?_⟩
    rw [hsys, if_neg Bool.false_ne_true] at hexcess
    exact List.count_eq_zero.mp hexcess.1.2
  | const str =>
    simp only [Item.excess, Nat.add_eq_zero_iff, Nat.mul_eq_zero] at hexcess
    refine ⟨List.count_eq_zero.mp (by omega), List.count_eq_zero.mp hexcess.1.2, fun hsys hnode => ?_⟩
    rw [hsys, hnode, Bool.or_false, if_neg Bool.false_ne_true] at hexcess
    exact List.count_eq_zero.mp (by omega)

/-! ## What is read at the end -/

/-- What can stand behind an item: nothing, or a separator and another item. -/
def Follows (tail : Bytes) : Prop :=
  tail = [] ∨ ∃ (separator : Separator) (more : Bytes), tail = separator.text ++ more ∧
    ¬ Comments separator.text ∧ ∀ c ∈ more.head?, c ≠ minus ∧ isSpace c = false

theorem Comments.cons {c : UInt8} {a : Bytes} (h : Comments a) : Comments (c :: a) :=
  h.trans (List.suffix_cons c a).isInfix

theorem quotecontinue_none {fuel : Nat} {a more : Bytes} (hnewline : ∀ c ∈ a, isNewline c = false)
    (hcomment : ¬ Comments a) (hmore : ∀ c ∈ more.head?, c ≠ minus ∧ isSpace c = false) :
    quotecontinue fuel (a ++ more) = none := by
  induction fuel generalizing a with
  | zero => rfl
  | succ fuel ih =>
    cases a with
    | nil =>
      cases more with
      | nil => rfl
      | cons c more =>
        obtain ⟨hminus, hspace⟩ := hmore c rfl
        have hnot : isNewline c = false := by
          simp only [isSpace, Bool.or_eq_false_iff] at hspace
          exact hspace.2
        have hnocomment : isComment (c :: more) = false := by
          simp [isComment, List.isPrefixOf, Ne.symm hminus]
        simp [quotecontinue, hnocomment, hnot, hspace]
    | cons c a =>
      have hnot := hnewline c List.mem_cons_self
      have hnocomment : isComment (c :: a ++ more) = false := by
        by_contra hfound
        obtain ⟨rest, hrest⟩ := List.isPrefixOf_iff_prefix.mp (Bool.not_eq_false _ ▸ hfound)
        cases a with
        | nil =>
          cases more with
          | nil => cases hrest
          | cons d more =>
            cases hrest
            exact (hmore _ rfl).1 rfl
        | cons d a =>
          cases hrest
          exact hcomment (List.prefix_append [minus, minus] a).isInfix
      have hrest := @ih a (fun c hc => hnewline c (List.mem_cons_of_mem _ hc)) fun h => hcomment h.cons
      rw [List.cons_append] at hnocomment ⊢
      simp only [quotecontinue, hnocomment, hnot, hrest, Bool.false_eq_true, if_false, ite_self]

theorem Follows.head {tail : Bytes} (h : Follows tail) :
    ∀ c ∈ tail.head?, c ≠ quote ∧ c ≠ dquote ∧ c ≠ backslash ∧ isIdentCont c = false := by
  obtain rfl | ⟨separator, more, rfl, -, -⟩ := h
  · exact fun c hc => nomatch hc
  · intro c hc
    obtain ⟨d, rest, hseparator, hcont⟩ := separator.starts
    obtain rfl : d = c := by simpa [hseparator] using hc
    obtain ⟨hq, hd, hb⟩ := separator.bytes d (hseparator ▸ List.mem_cons_self)
    exact ⟨hq, hd, hb, hcont⟩

theorem Follows.closes {tail : Bytes} (h : Follows tail) : Closes tail := by
  refine ⟨fun hq => (h.head quote hq).1 rfl, ?_⟩
  obtain rfl | ⟨separator, more, rfl, hcomment, hmore⟩ := h
  · rfl
  · exact quotecontinue_none (fun c hc => (separator.plain c hc).2.2.2) hcomment hmore

theorem scanName_name {n tail : Bytes} (hn : Nameable keyword n) (h : Follows tail) :
    scanName keyword (n ++ tail) = if isUnicode n tail = false then some (n, tail) else none := by
  obtain ⟨hstart, hcont, hkeyword⟩ := hn
  have hall : ∀ c ∈ n, isIdentCont c = true := fun c hc => (hcont c hc).1
  have hlower : n.map downcase = n :=
    (List.map_congr_left fun c hc => (hcont c hc).2).trans (List.map_id n)
  have htail : tail.takeWhile isIdentCont = [] ∧ tail.dropWhile isIdentCont = tail := by
    cases tail with
    | nil => exact ⟨rfl, rfl⟩
    | cons c tail =>
      have hc := (h.head c rfl).2.2.2
      exact ⟨List.takeWhile_cons_of_neg (by simp [hc]), List.dropWhile_cons_of_neg (by simp [hc])⟩
  obtain ⟨c, rest, rfl⟩ : ∃ c rest, n = c :: rest := by
    cases n with
    | nil => cases hstart
    | cons c rest => exact ⟨c, rest, rfl⟩
  unfold scanName
  rw [List.takeWhile_append_of_pos hall, List.dropWhile_append_of_pos hall, htail.1, htail.2, List.append_nil,
    hlower]
  simp only [List.cons_append, List.head?_cons] at hstart ⊢
  simp only [hstart, hkeyword, true_and]

/-- A Unicode string or identifier begins with the item. -/
def Item.Unicode (tail : Bytes) : Item → Prop
  | .name n => isUnicode n tail = true
  | _ => False

theorem doubled_eq_escapeString (h : quote ∉ str) : doubled str = escapeString str := by
  rw [← quotesDoubled_doubled, quotesDoubled_eq_self (mem_doubled h)]

/-- A string that begins with a plain byte is not empty. -/
theorem scanString_ne_nil {c : UInt8} {t : Bytes} (hq : c ≠ quote) (hb : c ≠ backslash) :
    scanString node (c :: t) ≠ some (.sconst [], rest) := by
  intro h
  unfold scanString at h
  split at h
  · obtain ⟨⟨found, rest'⟩, hscan, hpair⟩ := Option.map_eq_some_iff.mp h
    cases hpair
    rw [List.length_cons, scanXq, if_neg hq] at hscan
    obtain ⟨_, -, hpair⟩ := Option.map_eq_some_iff.mp hscan
    cases hpair
  · split at h
    · rename_i hscan
      split at h
      · cases h
      · cases h
        rw [List.length_cons, scanXe, if_neg hq, if_neg hb] at hscan
        obtain ⟨_, -, hpair⟩ := Option.map_eq_some_iff.mp hscan
        cases hpair
    · cases h

/-- The value of a constant, as it has been handed on, for the scanner of a node. -/
theorem scanString_handedOn {tail : Bytes} (hclean : (Item.const str).Clean sys node keyword)
    (h : Closes tail) :
    scanString node (handedOn sys str ++ quote :: tail) = some (.sconst
      (if sys.standardConformingStrings && node.standardConformingStrings then doubled str else str), tail) := by
  obtain ⟨hq, -, hb⟩ := hclean
  have hwritten : handedOn sys str = writtenFor node
      (if sys.standardConformingStrings && node.standardConformingStrings then doubled str else str) := by
    unfold handedOn writtenFor
    cases hsys : sys.standardConformingStrings <;> cases hnode : node.standardConformingStrings
    · exact (escapeString_eq_self hq (hb hsys hnode)).symm
    · exact (quotesDoubled_eq_self hq).symm
    · exact doubled_eq_escapeString hq
    · exact (quotesDoubled_eq_self (mem_doubled hq)).symm
  rw [hwritten, scanString_writtenFor h]

/-- An item is read at the end if it is one that is kept. -/
theorem reads_left {item : Item} {tail rest : Bytes} (hclean : item.Clean sys node keyword)
    (h : Follows tail) :
    item.ReadsAs node keyword (item.left sys ++ tail) rest ↔
      rest = tail ∧ item.Kept sys node keyword ∧ ¬ item.Unicode tail := by
  cases item with
  | name n =>
    change scanName keyword (n ++ tail) = some (n, rest) ↔
      rest = tail ∧ Nameable keyword n ∧ ¬ isUnicode n tail = true
    rw [scanName_name hclean h, and_iff_right (show Nameable keyword n from hclean)]
    cases isUnicode n tail with
    | true => simp
    | false => simp [eq_comm]
  | delimited n =>
    obtain ⟨hq, hd, hb⟩ := hclean
    have htail : tail.head? ≠ some dquote := fun hdquote => (h.head dquote hdquote).2.1 rfl
    have htext : Item.left sys (.delimited n) ++ tail = dquote :: (requoted n ++ dquote :: tail) := by
      rw [requoted_eq_self hd]
      change dquote :: (n ++ [dquote]) ++ tail = _
      simp
    rw [htext]
    constructor
    · rintro ⟨t, ht, hscan⟩
      obtain ⟨hne, hrest⟩ := of_scanIdentifier hscan
      have heq := List.append_cancel_left ((List.cons_inj_right _).mp ht |>.trans hrest)
      exact ⟨((List.cons_inj_right _).mp heq).symm, ⟨hne, hq, hd, hb⟩, id⟩
    · rintro ⟨rfl, ⟨hne, -⟩, -⟩
      exact ⟨_, rfl, scanIdentifier_requoted hne htail⟩
  | const str =>
    cases str with
    | nil =>
      refine ⟨fun ⟨t, ht, hscan⟩ => ?_, fun hkept => absurd rfl hkept.2.1.1⟩
      obtain rfl := (List.cons_inj_right _).mp ht
      cases tail with
      | nil =>
        unfold scanString at hscan
        split at hscan
        · cases hscan
        · cases hscan
      | cons c tail =>
        obtain ⟨hq, -, hb, -⟩ := h.head c rfl
        exact absurd hscan (scanString_ne_nil hq hb)
    | cons b str =>
      have htext : Item.left sys (.const (b :: str)) ++ tail =
          quote :: (handedOn sys (b :: str) ++ quote :: tail) := by
        change quote :: (handedOn sys (b :: str) ++ [quote]) ++ tail = _
        simp
      have hvalue := scanString_handedOn hclean h.closes
      obtain ⟨hq, hd, hb⟩ := hclean
      rw [htext]
      constructor
      · rintro ⟨t, ht, hscan⟩
        obtain rfl := (List.cons_inj_right _).mp ht
        rw [hvalue, Option.some.injEq, Prod.mk.injEq, Token.sconst.injEq] at hscan
        refine ⟨hscan.2.symm, ⟨List.cons_ne_nil _ _, hq, hd, fun hsame => ?_⟩, id⟩
        cases hsys : sys.standardConformingStrings with
        | false => exact hb hsys (hsame ▸ hsys)
        | true =>
          rw [← hsame, hsys] at hscan
          exact doubled_eq_self.mp hscan.1
      · rintro ⟨rfl, ⟨-, -, -, hsame⟩, -⟩
        refine ⟨_, rfl, hvalue.trans ?_⟩
        cases hsys : sys.standardConformingStrings with
        | false => rfl
        | true =>
          cases hnode : node.standardConformingStrings with
          | false => rfl
          | true =>
            rw [doubled_eq_self.mpr (hsame (hsys.trans hnode.symm))]
            rfl

theorem isIdentStart_plain {c : UInt8} (h : isIdentStart c = true) :
    c ≠ minus ∧ isSpace c = false ∧ c ≠ quote ∧ c ≠ dquote := by
  have hall : ∀ n : Fin 256, isIdentStart ⟨⟨n⟩⟩ = true →
      (⟨⟨n⟩⟩ : UInt8) ≠ minus ∧ isSpace ⟨⟨n⟩⟩ = false ∧ (⟨⟨n⟩⟩ : UInt8) ≠ quote ∧
        (⟨⟨n⟩⟩ : UInt8) ≠ dquote := by
    decide +kernel
  exact hall c.toBitVec.toFin h

/-- The first byte of an item tells whether it is quoted. -/
theorem left_head {item : Item} (h : item.Clean sys node keyword) :
    ∃ c t, item.left sys = c :: t ∧ c ≠ minus ∧ isSpace c = false ∧
      (c = quote ∨ c = dquote ↔ item.Quoted) := by
  cases item with
  | name n =>
    obtain ⟨hstart, -⟩ := h
    cases n with
    | nil => cases hstart
    | cons c t =>
      obtain ⟨hminus, hspace, hq, hd⟩ := isIdentStart_plain (show isIdentStart c = true by simpa using hstart)
      exact ⟨c, t, rfl, hminus, hspace, fun hor => hor.elim hq hd, False.elim⟩
  | delimited n =>
    exact ⟨dquote, n ++ [dquote], rfl, by decide, by decide, fun _ => trivial, fun _ => Or.inr rfl⟩
  | const str =>
    have hleft : Item.left sys (.const str) = quote :: (Item.left sys (.const str)).tail := by
      cases str <;> rfl
    exact ⟨quote, _, hleft, by decide, by decide, fun _ => trivial, fun _ => Or.inl rfl⟩

theorem renderBody_cases (out : Item → Bytes) (body : List (Item × Separator)) (last : Option Item) :
    (nextItem body last = none ∧ renderBody out body last = []) ∨
      ∃ item t, nextItem body last = some item ∧ item ∈ itemsBody body last ∧
        renderBody out body last = out item ++ t := by
  cases body with
  | nil =>
    cases last with
    | none => exact Or.inl ⟨rfl, rfl⟩
    | some item => exact Or.inr ⟨item, [], rfl, List.mem_singleton_self item, (List.append_nil _).symm⟩
  | cons pair body => exact Or.inr ⟨pair.1, _, rfl, List.mem_cons_self, rfl⟩

variable {body : List (Item × Separator)} {last : Option Item}

theorem follows_renderBody {separator : Separator} (hcomment : ¬ Comments separator.text)
    (hclean : ∀ item ∈ itemsBody body last, item.Clean sys node keyword) :
    Follows (separator.text ++ renderBody (Item.left sys) body last) := by
  refine Or.inr ⟨separator, _, rfl, hcomment, fun c hc => ?_⟩
  obtain ⟨-, hnil⟩ | ⟨item, t, -, hitem, hrender⟩ := renderBody_cases (Item.left sys) body last
  · rw [hnil] at hc
    cases hc
  · obtain ⟨d, t', hleft, hminus, hspace, -⟩ := left_head (hclean item hitem)
    rw [hrender, hleft] at hc
    cases hc
    exact ⟨hminus, hspace⟩

/-- A name `u`, an operator and a quote are taken for one token. -/
theorem unicode_iff {item : Item} {separator : Separator}
    (hclean : ∀ item ∈ itemsBody body last, item.Clean sys node keyword) :
    item.Unicode (separator.text ++ renderBody (Item.left sys) body last) ↔
      Joins item separator (nextItem body last) := by
  obtain ⟨c, rest, hseparator, -⟩ := separator.starts
  have hplain := separator.bytes
  cases item with
  | delimited _ => exact ⟨False.elim, fun h => nomatch h.1⟩
  | const _ => exact ⟨False.elim, fun h => nomatch h.1⟩
  | name n =>
    have htwo : isUnicode n (separator.text ++ renderBody (Item.left sys) body last) = true ↔
        n = [117] ∧ ∃ x more, separator.text ++ renderBody (Item.left sys) body last = 38 :: x :: more ∧
          (x = quote ∨ x = dquote) := by
      simp only [isUnicode, Bool.and_eq_true, Bool.or_eq_true, beq_iff_eq, List.isPrefixOf_iff_prefix]
      refine and_congr_right fun _ => ⟨?_, ?_⟩
      · rintro (⟨more, hmore⟩ | ⟨more, hmore⟩)
        · exact ⟨quote, more, hmore.symm, Or.inl rfl⟩
        · exact ⟨dquote, more, hmore.symm, Or.inr rfl⟩
      · rintro ⟨x, more, hmore, rfl | rfl⟩
        · exact Or.inl ⟨more, hmore.symm⟩
        · exact Or.inr ⟨more, hmore.symm⟩
    refine htwo.trans ?_
    obtain ⟨hnext, hnil⟩ | ⟨item, t, hnext, hitem, hrender⟩ := renderBody_cases (Item.left sys) body last
    · rw [hnil, List.append_nil, hnext]
      refine ⟨fun ⟨_, x, more, hmore, hx⟩ => ?_, fun ⟨_, _, i, hi, _⟩ => nomatch hi⟩
      have hbytes := hplain x (hmore ▸ List.mem_cons_of_mem _ List.mem_cons_self)
      exact absurd hx (not_or.mpr ⟨hbytes.1, hbytes.2.1⟩)
    · obtain ⟨d, t', hleft, -, -, hquoted⟩ := left_head (hclean item hitem)
      rw [hrender, hleft, hnext]
      constructor
      · rintro ⟨hn, x, more, hmore, hx⟩
        rw [hseparator] at hmore hplain
        cases rest with
        | nil =>
          cases hmore
          exact ⟨congrArg Item.name hn, by rw [hseparator], item, rfl, hquoted.mp hx⟩
        | cons b rest =>
          cases hmore
          have hbytes := hplain x (List.mem_cons_of_mem _ List.mem_cons_self)
          exact absurd hx (not_or.mpr ⟨hbytes.1, hbytes.2.1⟩)
      · rintro ⟨hn, hsep, i, hi, hq⟩
        cases hi
        rw [hsep]
        exact ⟨Item.name.inj hn, d, _, rfl, hquoted.mpr hq⟩

/-- A part is read at the end if its items are kept. -/
theorem readsBody_left (hclean : ∀ item ∈ itemsBody body last, item.Clean sys node keyword) :
    ReadsBody node keyword body last (renderBody (Item.left sys) body last) ↔
      KeptBody sys node keyword body last := by
  induction body with
  | nil =>
    cases last with
    | none => exact ⟨fun _ item h => (nomatch h), fun _ => rfl⟩
    | some item =>
      have hiff : item.ReadsAs node keyword (item.left sys ++ []) [] ↔ _ :=
        reads_left (hclean item (List.mem_singleton_self item)) (Or.inl rfl)
      have hunicode : ¬ item.Unicode [] := by
        cases item <;> simp [Item.Unicode, isUnicode, List.isPrefixOf]
      rw [List.append_nil] at hiff
      change item.ReadsAs node keyword (item.left sys) [] ↔ _
      rw [hiff, and_iff_right rfl, and_iff_left hunicode]
      exact ⟨fun h i hi => Option.some.inj hi ▸ h, fun h => h item rfl⟩
  | cons pair body ih =>
    obtain ⟨item, separator⟩ := pair
    have hitem := hclean item List.mem_cons_self
    have hbody : ∀ item ∈ itemsBody body last, item.Clean sys node keyword :=
      fun item h => hclean item (List.mem_cons_of_mem _ h)
    unfold KeptBody ReadsBody renderBody
    by_cases hcomment : Comments separator.text
    · exact ⟨fun ⟨_, _, h, _⟩ => absurd hcomment h, fun h => absurd hcomment h.2.1⟩
    · have hfollows := follows_renderBody hcomment hbody
      rw [← unicode_iff hbody, ← ih hbody]
      constructor
      · rintro ⟨rest, hreads, -, hrest⟩
        obtain ⟨heq, hkept, hunicode⟩ := (reads_left hitem hfollows).mp hreads
        obtain rfl := List.append_cancel_left heq
        exact ⟨hkept, hcomment, hunicode, hrest⟩
      · rintro ⟨hkept, -, hunicode, hrest⟩
        exact ⟨_, (reads_left hitem hfollows).mpr ⟨rfl, hkept, hunicode⟩, hcomment, hrest⟩

theorem Item.Kept.clean {item : Item} (h : item.Kept sys node keyword) : item.Clean sys node keyword := by
  cases item with
  | name n => exact h
  | delimited n => exact h.2
  | const str => exact ⟨h.2.1, h.2.2.1, fun hsys hnode => h.2.2.2 (hsys.trans hnode.symm)⟩

theorem KeptBody.clean (h : KeptBody sys node keyword body last) :
    ∀ item ∈ itemsBody body last, item.Clean sys node keyword := by
  induction body with
  | nil =>
    intro item hitem
    exact (h item (Option.mem_toList.mp hitem)).clean
  | cons pair body ih =>
    obtain ⟨hitem, -, -, hbody⟩ := h
    intro item hmem
    obtain rfl | hmem := List.mem_cons.mp hmem
    · exact hitem.clean
    · exact ih hbody item hmem

/-- Of what is printed for a constant `delimistr` undoes the quotes only. -/
theorem strip_escapeString (str : Bytes) : strip (escapeString str ++ [quote]) = doubled str := by
  induction str with
  | nil => rfl
  | cons c str ih =>
    obtain ⟨d, t, ht⟩ : ∃ d t, escapeString str ++ [quote] = d :: t := List.exists_cons_of_ne_nil (by simp)
    rw [escapeString_cons, doubled_cons]
    by_cases hquote : c = quote
    · subst hquote
      rw [if_pos rfl, if_neg quote_ne_backslash]
      simp only [List.cons_append, List.nil_append, strip, and_self, if_true, ih]
    · by_cases hback : c = backslash
      · subst hback
        rw [if_neg hquote, if_pos rfl]
        simp only [List.cons_append, List.nil_append]
        rw [strip, if_neg fun h => hquote h.1, ht, strip, if_neg fun h => hquote h.1, ← ht, ih]
      · rw [if_neg hquote, if_neg hback]
        simp only [List.cons_append, List.nil_append]
        rw [ht, strip, if_neg fun h => hquote h.1, ← ht, ih]

end PgPool.Nested
