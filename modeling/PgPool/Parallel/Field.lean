import PgPool.Parallel.Copy

/-!
# A field of a `COPY` row

What `parse_copy_data` returns for a row, and where it writes.  Fields are separated by the delimiters
that do not stand behind an odd number of backslashes.
-/

namespace PgPool.Parallel

/-! ## What is written -/

/-- The indices of `str` at which the loop of `parse_copy_data` writes; `j` is the next one. -/
def strWrites (delimiter : Char) (colId : Nat) : List Char → Nat → Nat → List Nat
  | [], _, j => [j]
  | [_], _, j => [j]
  | c :: d :: rest, field, j =>
    if c = '\\' ∧ rest ≠ [] then
      if d = delimiter then j :: strWrites delimiter colId rest field (j + 1)
      else j :: strWrites delimiter colId (d :: rest) field (j + 1)
    else if c = delimiter then
      if field = colId then [j] else strWrites delimiter colId (d :: rest) (field + 1) 0
    else j :: strWrites delimiter colId (d :: rest) field (j + 1)

/-- The indices of `p`, which has as many bytes as there are characters in the field: those of `strcpy`,
and the last one. -/
def pWrites (text : List Char) : List Nat :=
  List.range ((text.takeWhile (· ≠ '\x00')).length + 1) ++ [text.length]

/-- `str` has one byte more than the row, with its newline. -/
def InBounds (buf : List Char) (delimiter : Char) (colId : Nat) : Prop :=
  (∀ i ∈ strWrites delimiter colId buf 0 0, i < buf.length + 1) ∧
    ((scanCopyData delimiter colId buf 0 []).1 = colId →
      ∀ i ∈ pWrites (scanCopyData delimiter colId buf 0 []).2,
        i < (scanCopyData delimiter colId buf 0 []).2.length)

/-! ## The fields of a row -/

/-- `odd` tells whether an odd number of backslashes stands in front of the character. -/
def oddAfter (odd : Bool) (c : Char) : Bool := c = '\\' && !odd

/-- A character more in the first field. -/
def pushFirst (c : Char) : List (List Char) → List (List Char)
  | [] => [[c]]
  | f :: fs => (c :: f) :: fs

/-- The fields of a row, without its newline. -/
def splitFields (delimiter : Char) : Bool → List Char → List (List Char)
  | _, [] => [[]]
  | odd, c :: rest =>
    if c = delimiter ∧ odd = false then [] :: splitFields delimiter (oddAfter odd c) rest
    else pushFirst c (splitFields delimiter (oddAfter odd c) rest)

/-- The text of a field, in which an escaped delimiter stands for itself. -/
def fieldText (delimiter : Char) : List Char → List Char
  | c :: d :: rest =>
    if c = '\\' ∧ d = delimiter then d :: fieldText delimiter rest
    else c :: fieldText delimiter (d :: rest)
  | cs => cs

/-- The field of the index is returned, `NULL` just if there is none, and nothing is written outside. -/
structure Extracts (row : List Char) (delimiter : Char) (colId : Nat) : Prop where
  field : ∀ f, (splitFields delimiter false row)[colId]? = some f →
    parseCopyData (row ++ ['\n']) delimiter colId = some ((fieldText delimiter f).takeWhile (· ≠ '\x00'))
  null : parseCopyData (row ++ ['\n']) delimiter colId = none ↔
    (splitFields delimiter false row)[colId]? = none
  inBounds : InBounds (row ++ ['\n']) delimiter colId

/-! ## The loop -/

variable {d e : Char} {k n j m : Nat} {row str text : List Char} {odd : Bool}

theorem length_pushFirst {c : Char} {fs : List (List Char)} (h : fs ≠ []) :
    (pushFirst c fs).length = fs.length := by
  cases fs with
  | nil => exact absurd rfl h
  | cons f fs => rfl

theorem splitFields_ne_nil : splitFields d odd row ≠ [] := by
  cases row with
  | nil => simp [splitFields]
  | cons c row =>
    unfold splitFields
    split
    · simp
    · cases splitFields d (oddAfter odd c) row <;> simp [pushFirst]

/-- `str` is large enough. -/
theorem strWrites_le (d : Char) (k : Nat) (buf : List Char) (m j : Nat) :
    ∀ i ∈ strWrites d k buf m j, i ≤ j + buf.length := by
  fun_induction strWrites d k buf m j with
  | case1 => simp
  | case2 => simp
  | case3 c rest m j hback ih =>
    intro i hi
    obtain rfl | hi := List.mem_cons.mp hi
    · omega
    · have := ih i hi
      simp only [List.length_cons]
      omega
  | case4 c d' rest m j hback hd ih =>
    intro i hi
    obtain rfl | hi := List.mem_cons.mp hi
    · omega
    · have := ih i hi
      simp only [List.length_cons] at this ⊢
      omega
  | case5 => simp
  | case6 c rest m j hfield hback ih =>
    intro i hi
    have := ih i hi
    simp only [List.length_cons] at this ⊢
    omega
  | case7 c d' rest m j hback hd ih =>
    intro i hi
    obtain rfl | hi := List.mem_cons.mp hi
    · omega
    · have := ih i hi
      simp only [List.length_cons] at this ⊢
      omega

theorem splitFields_separator (h : odd = false) :
    splitFields d odd (d :: row) = [] :: splitFields d (oddAfter odd d) row := if_pos ⟨rfl, h⟩

theorem splitFields_push {c : Char} (h : ¬ (c = d ∧ odd = false)) :
    splitFields d odd (c :: row) = pushFirst c (splitFields d (oddAfter odd c) row) := if_neg h

/-- A delimiter that is met is not escaped. -/
theorem not_odd (hodd : odd = true → (d :: row).head? ≠ some d) : odd = false := by
  rw [Bool.eq_false_iff]
  exact fun h => hodd h rfl

/-! ### One character -/

theorem scan_end : scanCopyData d k [e] m str = (m, str) := rfl

theorem scan_escaped (row : List Char) :
    scanCopyData d k ('\\' :: d :: row ++ [e]) m str = scanCopyData d k (row ++ [e]) m (str ++ [d]) := by
  show scanCopyData d k ('\\' :: d :: (row ++ [e])) m str = _
  rw [scanCopyData, if_pos ⟨rfl, by simp⟩, if_pos rfl]

/-- A character that neither separates nor escapes a delimiter. -/
theorem scan_push {c : Char} (hsep : c ≠ d ∨ c = '\\' ∧ row ≠ []) (hesc : c = '\\' → row.head? ≠ some d) :
    scanCopyData d k (c :: row ++ [e]) m str = scanCopyData d k (row ++ [e]) m (str ++ [c]) := by
  cases row with
  | nil =>
    show scanCopyData d k [c, e] m str = _
    have hne : c ≠ d := hsep.resolve_right fun h => h.2 rfl
    rw [scanCopyData, if_neg (fun h => h.2 rfl), if_neg hne]
    rfl
  | cons c' row =>
    show scanCopyData d k (c :: c' :: (row ++ [e])) m str = _
    rw [scanCopyData]
    by_cases hback : c = '\\'
    · have hne : c' ≠ d := fun h => hesc hback (congrArg some h)
      rw [if_pos ⟨hback, by simp⟩, if_neg hne]
      rfl
    · have hne : c ≠ d := hsep.resolve_right fun h => hback h.1
      rw [if_neg (fun h => hback h.1), if_neg hne]
      rfl

/-- A delimiter. -/
theorem scan_separator (h : d ≠ '\\' ∨ row = []) :
    scanCopyData d k (d :: row ++ [e]) m str =
      if m = k then (m, str) else scanCopyData d k (row ++ [e]) (m + 1) [] := by
  cases row with
  | nil =>
    show scanCopyData d k [d, e] m str = _
    rw [scanCopyData, if_neg (fun h => h.2 rfl), if_pos rfl]
    rfl
  | cons c row =>
    show scanCopyData d k (d :: c :: (row ++ [e])) m str = _
    have hback : d ≠ '\\' := h.resolve_right (List.cons_ne_nil _ _)
    rw [scanCopyData, if_neg (fun h => hback h.1), if_pos rfl]
    rfl

/-- A character takes its part in the fields. -/
theorem length_splitFields_cons {c : Char} :
    (splitFields d odd (c :: row)).length =
      (splitFields d (oddAfter odd c) row).length + if c = d ∧ odd = false then 1 else 0 := by
  rw [splitFields]
  split
  · rfl
  · exact length_pushFirst splitFields_ne_nil

/-- The loop counts no more fields than there are.  A delimiter at which it stops is never escaped. -/
theorem scan_lt (row : List Char) : ∀ odd m str, (odd = true → row.head? ≠ some d) →
    (scanCopyData d k (row ++ [e]) m str).1 < m + (splitFields d odd row).length := by
  induction row using fieldText.induct d with
  | case1 c d' rest hesc ih =>
    obtain ⟨rfl, rfl⟩ := hesc
    intro odd m str hodd
    have heven : oddAfter (oddAfter odd '\\') d' = false := by
      cases odd with
      | false => simp [oddAfter]
      | true =>
        have hne : d' ≠ '\\' := fun h => hodd rfl (congrArg some h.symm)
        simp [oddAfter, hne]
    have hrest := ih _ m (str ++ [d']) (fun h => absurd (heven.symm.trans h) Bool.false_ne_true)
    have hscan := @scan_escaped d' e k m str rest
    rw [List.cons_append] at hscan
    rw [List.cons_append, List.cons_append, ← List.cons_append, hscan, length_splitFields_cons,
      length_splitFields_cons]
    omega
  | case2 c c' rest hesc ih =>
    intro odd m str hodd
    rw [length_splitFields_cons]
    by_cases hback : c = '\\'
    · have hne : c' ≠ d := fun h => hesc ⟨hback, h⟩
      rw [scan_push (.inr ⟨hback, by simp⟩) (fun _ => by simpa using hne)]
      have := ih (oddAfter odd c) m (str ++ [c]) fun _ => by simpa using hne
      omega
    · have hafter : oddAfter odd c = true → (c' :: rest).head? ≠ some d := by
        simp [oddAfter, hback]
      by_cases hsep : c = d
      · subst hsep
        have heven := not_odd hodd
        rw [scan_separator (.inl hback), if_pos (⟨rfl, heven⟩ : c = c ∧ odd = false)]
        have := ih (oddAfter odd c) (m + 1) [] hafter
        split
        · simp only
          omega
        · omega
      · rw [scan_push (.inl hsep) (fun h => absurd h hback)]
        have := ih (oddAfter odd c) m (str ++ [c]) hafter
        omega
  | case3 cs hcs =>
    intro odd m str hodd
    cases cs with
    | nil => simp [scan_end, splitFields]
    | cons c cs =>
      cases cs with
      | cons c' cs => exact absurd rfl (hcs c c' cs)
      | nil =>
        rw [length_splitFields_cons]
        by_cases hsep : c = d
        · subst hsep
          have heven := not_odd hodd
          rw [scan_separator (.inr rfl), if_pos (⟨rfl, heven⟩ : c = c ∧ odd = false)]
          split
          · simp [splitFields]
          · simp [splitFields, scan_end]
        · rw [scan_push (.inl hsep) (by simp)]
          show m < m + ([[]].length + _)
          simp only [List.length_singleton]
          omega

/-- No field that a delimiter follows ends in a backslash. -/
def Closed (fs : List (List Char)) : Prop := ∀ f ∈ fs.dropLast, f.getLast? ≠ some '\\'

instance (fs : List (List Char)) : Decidable (Closed fs) :=
  inferInstanceAs (Decidable (∀ f ∈ fs.dropLast, f.getLast? ≠ some '\\'))

theorem Closed.of_pushFirst {c : Char} {fs : List (List Char)} (h : Closed (pushFirst c fs)) :
    Closed fs := by
  cases fs with
  | nil => exact nofun
  | cons f fs =>
    cases fs with
    | nil => exact nofun
    | cons g gs =>
      intro f' hf'
      obtain rfl | hf' := List.mem_cons.mp hf'
      · intro hlast
        refine h (c :: f') List.mem_cons_self ?_
        rw [List.getLast?_cons, hlast]
        rfl
      · exact h f' (List.mem_cons_of_mem _ hf')

theorem Closed.tail {f : List Char} {fs : List (List Char)} (h : Closed (f :: fs)) : Closed fs := by
  cases fs with
  | nil => exact nofun
  | cons g gs => exact fun f' hf' => h f' (List.mem_cons_of_mem _ hf')

/-- The field once the character in front is taken away. -/
theorem getElem?_pushFirst {c : Char} {fs : List (List Char)} {g : List Char} (hfs : fs ≠ [])
    (h : (pushFirst c fs)[n]? = some g) :
    ∃ f, fs[n]? = some f ∧ g = if n = 0 then c :: f else f := by
  cases fs with
  | nil => exact absurd rfl hfs
  | cons f fs =>
    cases n with
    | zero => exact ⟨f, rfl, (Option.some.inj h).symm⟩
    | succ n => exact ⟨g, h, rfl⟩

theorem fieldText_cons {c : Char} {f : List Char} (h : c = '\\' → f.head? ≠ some d) :
    fieldText d (c :: f) = c :: fieldText d f := by
  cases f with
  | nil => rfl
  | cons c' f =>
    rw [fieldText, if_neg]
    rintro ⟨hback, rfl⟩
    exact h hback rfl

/-- The first field begins where the row begins. -/
theorem head?_splitFields {c : Char} {f : List Char} (hf : (splitFields d odd row)[0]? = some f)
    (hc : f.head? = some c) : row.head? = some c := by
  cases row with
  | nil =>
    obtain rfl := Option.some.inj hf
    cases hc
  | cons c' row =>
    by_cases hsep : c' = d ∧ odd = false
    · rw [splitFields, if_pos hsep] at hf
      obtain rfl := Option.some.inj hf
      cases hc
    · rw [splitFields_push hsep] at hf
      obtain ⟨g, -, rfl⟩ := getElem?_pushFirst splitFields_ne_nil hf
      exact hc

/-- A row of no more characters has one field. -/
theorem scan_field_nil {m : Nat} {str g : List Char} (hm : m ≤ k)
    (hg : (splitFields d odd [])[k - m]? = some g) :
    scanCopyData d k [e] m str = (k, (if k - m = 0 then str else []) ++ fieldText d g) := by
  have hzero : k - m = 0 := by
    by_contra hne
    rw [splitFields, List.getElem?_eq_none (by simp; omega)] at hg
    cases hg
  rw [hzero] at hg ⊢
  obtain rfl := Option.some.inj hg
  rw [scan_end, show m = k by omega]
  simp [fieldText]

/-- The last character ends a field, or is in the last one. -/
theorem scan_field_last {c : Char} {m : Nat} {str g : List Char} (hm : m ≤ k) (hodd : odd = true → c ≠ d)
    (hg : (splitFields d odd [c])[k - m]? = some g) :
    scanCopyData d k [c, e] m str = (k, (if k - m = 0 then str else []) ++ fieldText d g) := by
  show scanCopyData d k ([c] ++ [e]) m str = _
  by_cases hsep : c = d
  · subst hsep
    have heven : odd = false := Bool.eq_false_iff.mpr fun h => hodd h rfl
    rw [splitFields_separator heven, splitFields] at hg
    rw [scan_separator (.inr rfl)]
    split
    · rename_i hmk
      subst hmk
      rw [Nat.sub_self] at hg ⊢
      obtain rfl := Option.some.inj hg
      simp [fieldText]
    · rename_i hmk
      have hone : k - m = 1 := by
        have := (List.getElem?_eq_some_iff.mp hg).1
        simp at this
        omega
      rw [hone] at hg ⊢
      obtain rfl := Option.some.inj hg
      rw [List.nil_append, scan_end, show m + 1 = k by omega]
      rfl
  · rw [splitFields_push (fun h => hsep h.1), splitFields, pushFirst] at hg
    have hzero : k - m = 0 := by
      have := (List.getElem?_eq_some_iff.mp hg).1
      simp at this
      omega
    rw [hzero] at hg ⊢
    obtain rfl := Option.some.inj hg
    rw [scan_push (.inl hsep) (by simp), List.nil_append, scan_end, show m = k by omega]
    rfl

/-- The loop finds the field, with the escaped delimiters in it. -/
theorem scan_field (hd : d ≠ '\\') (row : List Char) : ∀ odd m str g, m ≤ k →
    (odd = true → row.head? ≠ some d) → Closed (splitFields d odd row) →
    (splitFields d odd row)[k - m]? = some g →
    scanCopyData d k (row ++ [e]) m str = (k, (if k - m = 0 then str else []) ++ fieldText d g) := by
  induction row using fieldText.induct d with
  | case1 c d' rest hesc ih =>
    obtain ⟨rfl, rfl⟩ := hesc
    intro odd m str g hm _ hclosed hg
    have hscan := @scan_escaped d' e k m str rest
    rw [List.cons_append] at hscan
    rw [List.cons_append, List.cons_append, ← List.cons_append, hscan]
    rw [splitFields_push (fun h => hd h.1.symm)] at hclosed hg
    cases odd with
    | true =>
      -- the delimiter separates, behind a field that ends in a backslash
      rw [splitFields_separator (show oddAfter true '\\' = false from rfl)] at hclosed
      have hne : splitFields d' (oddAfter (oddAfter true '\\') d') rest ≠ [] := splitFields_ne_nil
      refine absurd rfl (hclosed ['\\'] ?_)
      rw [pushFirst, List.dropLast_cons_of_ne_nil hne]
      exact List.mem_cons_self
    | false =>
      have hpush : ¬ (d' = d' ∧ oddAfter false '\\' = false) := by simp [oddAfter]
      have hafter : oddAfter (oddAfter false '\\') d' = false := by simp [oddAfter]
      rw [splitFields_push hpush, hafter] at hclosed hg
      have hne : pushFirst d' (splitFields d' false rest) ≠ [] := by
        rw [← List.length_pos_iff, length_pushFirst splitFields_ne_nil, List.length_pos_iff]
        exact splitFields_ne_nil
      obtain ⟨g', hg', rfl⟩ := getElem?_pushFirst hne hg
      obtain ⟨f, hf, rfl⟩ := getElem?_pushFirst splitFields_ne_nil hg'
      rw [ih false m (str ++ [d']) f hm nofun hclosed.of_pushFirst.of_pushFirst hf]
      split
      · simp [fieldText]
      · rfl
  | case2 c c' rest hesc ih =>
    intro odd m str g hm hodd hclosed hg
    by_cases hsep : c = d
    · subst hsep
      have heven := not_odd hodd
      rw [splitFields_separator heven] at hclosed hg
      rw [scan_separator (.inl hd)]
      split
      · rename_i hmk
        subst hmk
        rw [Nat.sub_self] at hg ⊢
        obtain rfl := Option.some.inj hg
        simp [fieldText]
      · rename_i hmk
        have hafter : oddAfter odd c = true → (c' :: rest).head? ≠ some c := by
          simp [oddAfter, hd]
        have hidx : k - m = k - (m + 1) + 1 := by omega
        rw [hidx, List.getElem?_cons_succ] at hg
        rw [ih _ (m + 1) [] g (by omega) hafter hclosed.tail hg, if_neg (show ¬ k - m = 0 by omega)]
        simp
    · rw [splitFields_push (fun h => hsep h.1)] at hclosed hg
      have hnext : c = '\\' → (c' :: rest).head? ≠ some d := by
        intro hback h
        exact hesc ⟨hback, Option.some.inj h⟩
      have hafter : oddAfter odd c = true → (c' :: rest).head? ≠ some d :=
        fun h => hnext (of_decide_eq_true (Bool.and_eq_true_iff.mp h).1)
      obtain ⟨f, hf, rfl⟩ := getElem?_pushFirst splitFields_ne_nil hg
      rw [scan_push (.inl hsep) hnext, ih _ m (str ++ [c]) f hm hafter hclosed.of_pushFirst hf]
      split
      · rename_i hzero
        rw [hzero] at hf
        rw [fieldText_cons fun hback h => hnext hback (head?_splitFields hf h), List.append_assoc]
        rfl
      · rfl
  | case3 cs hcs =>
    intro odd m str g hm hodd _ hg
    cases cs with
    | nil => exact scan_field_nil hm hg
    | cons c cs =>
      cases cs with
      | cons c' cs => exact absurd rfl (hcs c c' cs)
      | nil => exact scan_field_last hm (fun h hsep => hodd h (congrArg some hsep)) hg

/-! ## The function -/

/-- Where the fields are closed the right one is found. -/
theorem parseCopyData_closed (hd : d ≠ '\\') (hclosed : Closed (splitFields d false row)) :
    parseCopyData (row ++ ['\n']) d k =
      (splitFields d false row)[k]?.map fun f => (fieldText d f).takeWhile (· ≠ '\x00') := by
  unfold parseCopyData
  cases hf : (splitFields d false row)[k]? with
  | none =>
    have hlt := @scan_lt d '\n' k row false 0 [] nofun
    have hle := List.getElem?_eq_none_iff.mp hf
    simp only
    rw [if_neg (by omega)]
    rfl
  | some f =>
    have hscan := @scan_field d '\n' k hd row false 0 [] f (Nat.zero_le k) nofun hclosed hf
    simp only [hscan, if_true]
    simp

/-- Nothing is returned where there is no field. -/
theorem parseCopyData_missing (h : (splitFields d false row)[k]? = none) :
    parseCopyData (row ++ ['\n']) d k = none := by
  have hlt := @scan_lt d '\n' k row false 0 [] nofun
  have hle := List.getElem?_eq_none_iff.mp h
  unfold parseCopyData
  simp only
  rw [if_neg (by omega)]

/-- Wherever a field is returned its last byte is written behind the end of `p`. -/
theorem inBounds_iff : InBounds (row ++ ['\n']) d k ↔ parseCopyData (row ++ ['\n']) d k = none := by
  have hstr : ∀ i ∈ strWrites d k (row ++ ['\n']) 0 0, i < (row ++ ['\n']).length + 1 := by
    intro i hi
    have := strWrites_le d k (row ++ ['\n']) 0 0 i hi
    omega
  unfold InBounds parseCopyData
  rw [and_iff_right hstr]
  generalize scanCopyData d k (row ++ ['\n']) 0 [] = p
  obtain ⟨field, text⟩ := p
  by_cases hfound : field = k
  · simp only [if_pos hfound]
    refine iff_of_false (fun h => ?_) (by simp)
    exact Nat.lt_irrefl _ (h hfound text.length (by simp [pWrites]))
  · simp only [if_neg hfound]
    exact iff_of_true (fun h => absurd h hfound) trivial

/-- `parse_copy_data` does what it should exactly if the row has no field of the index.  Where the fields
are closed what it returns is right all the same. -/
theorem extracts_iff (row : List Char) (delimiter : Char) (colId : Nat) :
    (Extracts row delimiter colId ↔ (splitFields delimiter false row).length ≤ colId) ∧
      (delimiter ≠ '\\' → Closed (splitFields delimiter false row) →
        parseCopyData (row ++ ['\n']) delimiter colId = (splitFields delimiter false row)[colId]?.map
          fun f => (fieldText delimiter f).takeWhile (· ≠ '\x00')) := by
  refine ⟨⟨fun h => ?_, fun h => ?_⟩, parseCopyData_closed⟩
  · exact List.getElem?_eq_none_iff.mp (h.null.mp (inBounds_iff.mp h.inBounds))
  · have hnone := List.getElem?_eq_none_iff.mpr h
    have hmissing := parseCopyData_missing hnone
    refine ⟨fun f hf => ?_, iff_of_true hmissing hnone, inBounds_iff.mpr hmissing⟩
    rw [hnone] at hf
    cases hf

/-- Of two fields the second one, with an escaped delimiter in it. -/
theorem parseCopyData_second :
    parseCopyData ("a,b\\,c".toList ++ ['\n']) ',' 1 = some "b,c".toList :=
  (extracts_iff "a,b\\,c".toList ',' 1).2 (by decide) (by decide)

/-- Any field at all. -/
theorem not_extracts_first :
    ¬ ∀ (row : List Char) (delimiter : Char) (colId : Nat), Extracts row delimiter colId := by
  intro h
  have hpast := (h ['a'] ',' 0).inBounds.2 (by decide) 1 (by decide)
  exact absurd hpast (by decide)

end PgPool.Parallel
