import PgPool.Internal.QueryRun

/-!
# What do_query makes of a reply

The result that `do_query` returns, against the reply: the columns, the number of the rows, and a flag
and a string for every field.
-/

namespace PgPool.Internal

open Words

variable {major : Proto}

/-! ## Rows in one list -/

/-- The fields of rows of one width stand at the place of the row. -/
theorem getElem?_flatten {α : Type} {rows : List (List α)} {width : Nat}
    (hwidth : ∀ row ∈ rows, row.length = width) {r c : Nat} {row : List α} (hrow : rows[r]? = some row)
    (hc : c < width) : rows.flatten[r * width + c]? = row[c]? := by
  induction rows generalizing r with
  | nil => cases hrow
  | cons first rows ih =>
    have hfirst := hwidth first List.mem_cons_self
    rw [List.flatten_cons]
    cases r with
    | zero =>
      cases hrow
      rw [Nat.zero_mul, Nat.zero_add, List.getElem?_append_left (by omega)]
    | succ r =>
      have hnext := ih (fun row h => hwidth row (List.mem_cons_of_mem _ h)) hrow
      have hplace : (r + 1) * width + c = first.length + (r * width + c) := by
        rw [hfirst, Nat.succ_mul]
        omega
      rw [hplace, List.getElem?_append_right (Nat.le_add_right _ _), Nat.add_sub_cancel_left]
      exact hnext

theorem length_flatten_of_width {α : Type} {rows : List (List α)} {width : Nat}
    (hwidth : ∀ row ∈ rows, row.length = width) : rows.flatten.length = rows.length * width := by
  induction rows with
  | nil => simp
  | cons row rows ih =>
    have hrow := hwidth row List.mem_cons_self
    rw [List.flatten_cons, List.length_append, ih fun row h => hwidth row (List.mem_cons_of_mem _ h), hrow,
      List.length_cons, Nat.succ_mul, Nat.add_comm]

/-! ## Replies -/

/-- The reply to a SELECT: a description and then rows, if it gets so far; how it ended; and
ReadyForQuery.  Notices stand anywhere. -/
structure QueryReply where
  before : List QueryMessage
  columns : Option (List Column)
  items : List QueryMessage
  failed : Bool
  tag : List UInt8
  after : List QueryMessage
  status : UInt8

namespace QueryReply

variable (q : QueryReply)

/-- The number of the columns. -/
def width : Nat := (q.columns.getD []).length

/-- The messages to the end of the rows. -/
def table : List QueryMessage := q.before ++ (q.columns.map QueryMessage.description).toList ++ q.items

/-- CommandComplete or ErrorResponse. -/
def result : QueryMessage := .text (if q.failed then 69 else 67) q.tag

def bytes (major : Proto) : List UInt8 :=
  (q.table ++ q.result :: q.after).flatMap (QueryMessage.bytes major) ++ readyBytes major q.status

/-- The rows of the reply. -/
def rows : List (List Field) := rowsOf q.items

/-- Every message is legal, and rows have as many fields as have been described. -/
structure Legal (major : Proto) : Prop where
  messages : ∀ m ∈ q.table ++ q.result :: q.after, m.Legal major
  before : ∀ m ∈ q.before, m.IsNotice major
  items : ∀ m ∈ q.items, m.IsNotice major ∨
    ∃ fields nullmap columns, m = .row fields nullmap ∧ q.columns = some columns ∧
      fields.length = columns.length
  after : ∀ m ∈ q.after, m.IsNotice major

end QueryReply

/-- The flag of a field tells whether it is null, and the string of one that is not null is its value. -/
structure Holds (st : QueryState) (i : Nat) (field : Field) : Prop where
  flag : ∃ flag, st.nullflags[i]? = some flag ∧ (flag = -1 ↔ field = none)
  value : ∀ value, field = some value → st.data[i]? = some (.string value)

/-- The result is what the reply says. -/
structure Matches (major : Proto) (st : QueryState) (q : QueryReply) : Prop where
  numrows : st.numrows = q.rows.length
  attrinfo : st.attrinfo = (q.columns.getD []).map (Column.attr major)
  nullflags : st.nullflags.length = q.rows.length * q.width
  data : st.data.length = q.rows.length * q.width
  fields : ∀ r row c field, q.rows[r]? = some row → row[c]? = some field → Holds st (r * q.width + c) field

/-- Whatever follows the reply, it is read to its end, and its contents are the result. -/
def Decodes (major : Proto) (q : QueryReply) : Prop :=
  ∀ rest, ∃ st, doQuery major (q.bytes major ++ rest) = some (st, rest) ∧ Matches major st q

/-- An error fits into the buffer; in protocol V2 one that does not is completed by the next message. -/
def ErrorFits (major : Proto) (q : QueryReply) : Prop :=
  q.failed = true →
    match major with
    | .v3 => 4 + q.tag.length < peekBufSz
    | .v2 => q.tag.length + 1 < peekBufSz ∨ q.after ≠ []

/-- There are fewer columns than a short can count, no field is an empty string, rows have columns, and an
error fits. -/
structure Decodable (major : Proto) (q : QueryReply) : Prop where
  columns : q.width < 2 ^ 15
  values : ∀ row ∈ q.rows, some [] ∉ row
  counted : q.rows = [] ∨ q.width ≠ 0
  error : ErrorFits major q

/-! ## The table -/

namespace QueryReply

variable {q : QueryReply}

/-- The state after the description. -/
def described (q : QueryReply) (major : Proto) : QueryState :=
  QueryState.init.describe q.width ((q.columns.getD []).map (Column.attr major))

/-- The state after the last row. -/
def received (q : QueryReply) (major : Proto) : QueryState where
  numFields := q.width
  numrows := if q.width = 0 then 0 else q.rows.length
  attrinfo := (q.columns.getD []).map (Column.attr major)
  nullflags := (q.rows.flatten.map decodedField).map Prod.fst
  data := cells 0 (q.rows.flatten.map decodedField)

theorem notice_text {m : QueryMessage} (h : m.IsNotice major) :
    ∃ kind string, m = .text kind string ∧ Skipped major kind ∧ kind ≠ 69 := by
  cases m with
  | text kind string =>
    obtain rfl | ⟨rfl, rfl⟩ | ⟨rfl, rfl⟩ := h
    · exact ⟨78, string, rfl, .inr (.inr (.inl rfl)), nofun⟩
    · exact ⟨83, string, rfl, .inr (.inr (.inr (.inl ⟨rfl, rfl⟩))), nofun⟩
    · exact ⟨80, string, rfl, .inr (.inr (.inr (.inr ⟨rfl, rfl⟩))), nofun⟩
  | description columns => exact h.elim
  | row fields nullmap => exact h.elim

theorem readable_of_notice {m : QueryMessage} (hlegal : m.Legal major) (h : m.IsNotice major) :
    Readable major m := by
  obtain ⟨kind, string, rfl, hkind, herror⟩ := notice_text h
  refine ⟨hlegal, fun h => absurd h herror, ?_⟩
  rintro _ _ ⟨⟩
  exact hkind

theorem continues_of_notice {m : QueryMessage} (h : m.IsNotice major) (numFields : Int) :
    Continues numFields m := by
  obtain ⟨kind, string, rfl, -, -⟩ := notice_text h
  exact trivial

/-- Notices leave the state as it is. -/
theorem queryLoop_notices {ms : List QueryMessage} (hlegal : ∀ m ∈ ms, m.Legal major)
    (h : ∀ m ∈ ms, m.IsNotice major) (fuel : Nat) (st : QueryState) (rest : List UInt8) :
    queryLoop major (fuel + ms.length) st (ms.flatMap (QueryMessage.bytes major) ++ rest) =
      queryLoop major fuel st rest := by
  have hsame : ms.foldl (absorb major) st = st := by
    induction ms with
    | nil => rfl
    | cons m ms ih =>
      obtain ⟨kind, string, rfl, -, -⟩ := notice_text (h m List.mem_cons_self)
      exact ih (fun m hm => hlegal m (List.mem_cons_of_mem _ hm))
        fun m hm => h m (List.mem_cons_of_mem _ hm)
  rw [queryLoop_append (fun m hm => readable_of_notice (hlegal m hm) (h m hm))
    (fun m hm => continues_of_notice (h m hm) _), hsame]

theorem queryLoop_description
    (hlegal : ∀ m ∈ (q.columns.map QueryMessage.description).toList, m.Legal major)
    (hlt : q.width < 2 ^ 15) (fuel : Nat) (rest : List UInt8) :
    queryLoop major (fuel + (q.columns.map QueryMessage.description).toList.length) QueryState.init
        ((q.columns.map QueryMessage.description).toList.flatMap (QueryMessage.bytes major) ++ rest) =
      queryLoop major fuel (q.described major) rest := by
  unfold described
  unfold width at hlt ⊢
  cases hcolumns : q.columns with
  | none => rfl
  | some columns =>
    rw [hcolumns] at hlt hlegal
    have hmessage := hlegal _ List.mem_cons_self
    have hround : queryRound major 84 QueryState.init
        ((QueryMessage.description columns).body major ++ rest) =
          some (absorb major QueryState.init (.description columns), rest) :=
      queryRound_description hmessage hlt rest
    have habsorb : absorb major QueryState.init (.description columns) =
        QueryState.init.describe columns.length (columns.map (Column.attr major)) := by
      by_cases hempty : columns = []
      · subst hempty
        rfl
      · rw [absorb, if_neg hempty]
    rw [habsorb] at hround
    exact (congrArg (queryLoop major (fuel + 1) QueryState.init) (by simp)).trans
      (queryLoop_cons (m := .description columns) (show (84 : UInt8) ≠ 90 by decide) hround)

theorem Legal.rows_width (h : q.Legal major) : ∀ row ∈ q.rows, row.length = q.width := by
  intro row hrow
  obtain ⟨m, hm, hfields⟩ := List.mem_filterMap.mp hrow
  obtain hnotice | ⟨fields, nullmap, columns, rfl, hcolumns, hlen⟩ := h.items m hm
  · obtain ⟨kind, string, rfl, -, -⟩ := notice_text hnotice
    cases hfields
  · cases hfields
    rw [width, hcolumns]
    exact hlen

/-- The loop gets to the end of the rows. -/
theorem queryLoop_table (h : q.Legal major) (hlt : q.width < 2 ^ 15) (fuel : Nat) (rest : List UInt8) :
    queryLoop major (fuel + q.table.length) QueryState.init
        (q.table.flatMap (QueryMessage.bytes major) ++ rest) =
      queryLoop major fuel (q.received major) rest := by
  have hlegal : ∀ m ∈ q.table, m.Legal major := fun m hm => h.messages m (List.mem_append_left _ hm)
  unfold table at hlegal ⊢
  have hcontinues : ∀ m ∈ q.items, Continues (q.described major).numFields m := by
    intro m hm
    obtain hnotice | ⟨fields, nullmap, columns, rfl, hcolumns, hlen⟩ := h.items m hm
    · exact continues_of_notice hnotice _
    · change (fields.length : Int) = (q.columns.getD []).length
      rw [hcolumns, hlen]
      rfl
  have hreadable : ∀ m ∈ q.items, Readable major m := by
    intro m hm
    have hm' := hlegal m (List.mem_append_right _ hm)
    obtain hnotice | ⟨fields, nullmap, columns, rfl, hcolumns, hlen⟩ := h.items m hm
    · exact readable_of_notice hm' hnotice
    · refine ⟨hm', ?_, nofun⟩
      rw [width, hcolumns] at hlt
      change fields.length < 2 ^ 15
      rw [hlen]
      exact hlt
  have hitems : q.items.foldl (absorb major) (q.described major) = q.received major := by
    rw [foldl_absorb hcontinues]
    simp [described, received, QueryState.describe, QueryState.init, rows]
  generalize hcolumns : (q.columns.map QueryMessage.description).toList = columns at hlegal
  have hbefore : ∀ m ∈ q.before, m.Legal major := fun m hm =>
    hlegal m (List.mem_append_left _ (List.mem_append_left _ hm))
  have hdescription : ∀ m ∈ columns, m.Legal major := fun m hm =>
    hlegal m (List.mem_append_left _ (List.mem_append_right _ hm))
  have hfuel : fuel + (q.before ++ columns ++ q.items).length =
      fuel + q.items.length + columns.length + q.before.length := by
    rw [List.length_append, List.length_append]
    omega
  rw [hfuel, List.flatMap_append, List.flatMap_append, List.append_assoc, List.append_assoc,
    queryLoop_notices hbefore h.before]
  subst hcolumns
  rw [queryLoop_description hdescription hlt, queryLoop_append hreadable hcontinues, hitems]

/-! ## The end of the reply -/

theorem result_skipped (q : QueryReply) : Skipped major (if q.failed then 69 else 67) := by
  cases q.failed with
  | false => exact .inl rfl
  | true => exact .inr (.inl rfl)

theorem Legal.result (h : q.Legal major) : q.result.Legal major :=
  h.messages _ (List.mem_append_right _ List.mem_cons_self)

theorem Legal.after_legal (h : q.Legal major) : ∀ m ∈ q.after, m.Legal major := fun _ hm =>
  h.messages _ (List.mem_append_right _ (List.mem_cons_of_mem _ hm))

/-- The messages after the result, and ReadyForQuery. -/
def finish (q : QueryReply) (major : Proto) : List UInt8 :=
  q.after.flatMap (QueryMessage.bytes major) ++ readyBytes major q.status

theorem queryLoop_finish (h : q.Legal major) (fuel : Nat) (st : QueryState) (rest : List UInt8) :
    queryLoop major (fuel + 1 + q.after.length) st (q.finish major ++ rest) = some (st, rest) := by
  unfold finish
  rw [List.append_assoc, queryLoop_notices h.after_legal h.after, queryLoop_ready]

/-- A result that fits is passed over. -/
theorem queryLoop_result (h : q.Legal major) (hfits : Fits major q.result) (fuel : Nat) (st : QueryState)
    (rest : List UInt8) :
    queryLoop major (fuel + 1 + q.after.length + 1) st (q.result.bytes major ++ (q.finish major ++ rest)) =
      some (st, rest) := by
  have hskipped : Skipped major q.result.kind := result_skipped q
  have hround : queryRound major q.result.kind st
      (q.result.body major ++ (q.finish major ++ rest)) = some (st, q.finish major ++ rest) :=
    queryRound_text hskipped h.result hfits _
  have hkind : q.result.kind ≠ 90 := (skipped_not_data hskipped).2.2
  rw [queryLoop_cons hkind hround, queryLoop_finish h]

/-- An error that does not fit is not put back in protocol V3. -/
theorem queryLoop_error_v3 (h : q.Legal .v3) (hfailed : q.failed = true)
    (hlong : peekBufSz ≤ 4 + q.tag.length) (fuel : Nat) (st : QueryState) (rest : List UInt8) :
    queryLoop .v3 fuel st (q.result.bytes .v3 ++ rest) = none := by
  have hlen : q.tag.length + 4 < 2 ^ 31 := h.result.1 rfl
  have hround : queryRound .v3 q.result.kind st (q.result.body .v3 ++ rest) = none := by
    have hextract := extractErrorMessage_v3 hlen rest
    rw [if_pos hlong] at hextract
    unfold queryRound result
    rw [hfailed]
    exact congrArg (fun tape => tape.bind (handleMessage .v3 69 st)) hextract
  cases fuel with
  | zero => rfl
  | succ fuel =>
    unfold QueryMessage.bytes
    rw [List.cons_append, queryLoop, hround]
    rfl

/-- In protocol V2 it is cut. -/
theorem queryRound_error_v2 (h : q.Legal .v2) (hfailed : q.failed = true)
    (hlong : peekBufSz ≤ q.tag.length + 1) (st : QueryState) (rest : List UInt8) :
    queryRound .v2 q.result.kind st (q.result.body .v2 ++ rest) =
      handleMessage .v2 69 st (q.tag.take (peekBufSz - 1) ++ rest) := by
  have hextract := extractErrorMessage_v2 (h.result.2 rfl) rest
  rw [List.take_append_of_le_length (by omega)] at hextract
  unfold queryRound result
  rw [hfailed]
  exact congrArg (fun tape => tape.bind (handleMessage .v2 69 st)) hextract

theorem zero_notMem_cut (h : q.Legal .v2) (n : Nat) : 0 ∉ q.tag.take n :=
  fun hmem => h.result.2 rfl (List.mem_of_mem_take hmem)

/-- With the next message it makes up a string. -/
theorem queryLoop_error_v2 (h : q.Legal .v2) (hfailed : q.failed = true)
    (hlong : peekBufSz ≤ q.tag.length + 1) (hafter : q.after ≠ []) (fuel : Nat) (st : QueryState)
    (rest : List UInt8) :
    queryLoop .v2 (fuel + 1 + q.after.length + 1) st (q.result.bytes .v2 ++ (q.finish .v2 ++ rest)) =
      some (st, rest) := by
  obtain ⟨notice, after, hq⟩ := List.exists_cons_of_ne_nil hafter
  have hnotices := h.after
  have hlegals := h.after_legal
  rw [hq] at hnotices hlegals
  obtain ⟨kind, string, rfl, hkind, -⟩ := notice_text (hnotices _ List.mem_cons_self)
  have hstring : 0 ∉ q.tag.take (peekBufSz - 1) ++ kind :: string := by
    have hzero : (0 : UInt8) ≠ kind := by
      obtain rfl | rfl | rfl | ⟨-, rfl⟩ | ⟨-, rfl⟩ := hkind <;> exact nofun
    rw [List.mem_append, List.mem_cons]
    rintro (hcut | heq | htail)
    · exact zero_notMem_cut h _ hcut
    · exact hzero heq
    · exact (hlegals _ List.mem_cons_self).2 rfl htail
  have hround : queryRound .v2 q.result.kind st (q.result.body .v2 ++ (q.finish .v2 ++ rest)) =
      some (st, after.flatMap (QueryMessage.bytes .v2) ++ (readyBytes .v2 q.status ++ rest)) := by
    have hskip : handleMessage .v2 69 st (q.tag.take (peekBufSz - 1) ++ kind :: string ++ [0] ++
        (after.flatMap (QueryMessage.bytes .v2) ++ (readyBytes .v2 q.status ++ rest))) = some (st, _) :=
      handleMessage_v2 (.inr (.inl rfl)) hstring _
    rw [queryRound_error_v2 h hfailed hlong, ← hskip, finish, hq]
    simp [QueryMessage.bytes, QueryMessage.kind, QueryMessage.body]
  have hskipped : Skipped .v2 q.result.kind := result_skipped q
  have hkind' : q.result.kind ≠ 90 := (skipped_not_data hskipped).2.2
  have hfuel : fuel + 1 + q.after.length = fuel + 1 + 1 + after.length := by
    rw [hq, List.length_cons]
    omega
  rw [queryLoop_cons hkind' hround, hfuel,
    queryLoop_notices (fun m hm => hlegals m (List.mem_cons_of_mem _ hm))
      fun m hm => hnotices m (List.mem_cons_of_mem _ hm), queryLoop_ready]

/-- Without one it does not end. -/
theorem queryLoop_error_v2_last (h : q.Legal .v2) (hfailed : q.failed = true)
    (hlong : peekBufSz ≤ q.tag.length + 1) (hafter : q.after = []) (fuel : Nat) (st : QueryState) :
    queryLoop .v2 fuel st (q.result.bytes .v2 ++ q.finish .v2) = none := by
  have hnone : ∀ {string : List UInt8}, 0 ∉ string → Reader.upTo 0 string = none := by
    intro string hstring
    induction string with
    | nil => rfl
    | cons b string ih =>
      rw [List.mem_cons, not_or] at hstring
      rw [Reader.upTo, if_neg (Ne.symm hstring.1), ih hstring.2]
      rfl
  have hstring : 0 ∉ q.tag.take (peekBufSz - 1) ++ [90] := by
    rw [List.mem_append, List.mem_singleton]
    rintro (hcut | heq)
    · exact zero_notMem_cut h _ hcut
    · cases heq
  have hround : queryRound .v2 q.result.kind st (q.result.body .v2 ++ q.finish .v2) = none := by
    have hfinish : q.finish .v2 = [90] := by
      rw [finish, hafter]
      rfl
    rw [queryRound_error_v2 h hfailed hlong, hfinish]
    unfold handleMessage skipString2
    rw [if_pos (.inr (.inl rfl)), hnone hstring]
    rfl
  cases fuel with
  | zero => rfl
  | succ fuel =>
    unfold QueryMessage.bytes
    rw [List.cons_append, queryLoop, hround]
    rfl

/-! ## The result -/

variable (major) in
theorem length_le_bytes (ms : List QueryMessage) :
    ms.length ≤ (ms.flatMap (QueryMessage.bytes major)).length := by
  induction ms with
  | nil => exact Nat.le_refl 0
  | cons m ms ih =>
    rw [List.flatMap_cons, List.length_append, List.length_cons, QueryMessage.bytes, List.length_cons]
    omega

theorem bytes_eq (q : QueryReply) (rest : List UInt8) : q.bytes major ++ rest =
    q.table.flatMap (QueryMessage.bytes major) ++ (q.result.bytes major ++ (q.finish major ++ rest)) := by
  simp [bytes, finish]

variable (major) in
/-- Every message needs one round, and there are as many as bytes. -/
theorem exists_fuel (q : QueryReply) (rest : List UInt8) :
    ∃ fuel, (q.bytes major ++ rest).length + 1 = fuel + 1 + q.after.length + 1 + q.table.length := by
  have htable := length_le_bytes major q.table
  have hafter := length_le_bytes major q.after
  have hready : 0 < (readyBytes major q.status).length := by
    cases major <;> exact Nat.succ_pos _
  refine ⟨(q.bytes major ++ rest).length + 1 - (1 + q.after.length + 1 + q.table.length), ?_⟩
  rw [bytes_eq, finish]
  simp only [List.length_append, QueryMessage.bytes, List.length_cons]
  omega

/-- What is returned when the end of the reply is reached. -/
theorem doQuery_eq_received (h : q.Legal major) (hlt : q.width < 2 ^ 15) (herror : ErrorFits major q)
    (rest : List UInt8) :
    doQuery major (q.bytes major ++ rest) = some (q.received major, rest) := by
  obtain ⟨fuel, hfuel⟩ := exists_fuel major q rest
  have hresult : ∀ st, queryLoop major (fuel + 1 + q.after.length + 1) st
      (q.result.bytes major ++ (q.finish major ++ rest)) = some (st, rest) := by
    intro st
    cases hfailed : q.failed with
    | false =>
      refine queryLoop_result h (fun hkind => ?_) fuel st rest
      rw [hfailed] at hkind
      cases hkind
    | true =>
      have hshort := herror hfailed
      cases major with
      | v3 => exact queryLoop_result h (fun _ => hshort) fuel st rest
      | v2 =>
        by_cases hlong : q.tag.length + 1 < peekBufSz
        · exact queryLoop_result h (fun _ => hlong) fuel st rest
        · have hafter := hshort.resolve_left hlong
          exact queryLoop_error_v2 h hfailed (Nat.le_of_not_lt hlong) hafter fuel st rest
  rw [doQuery, hfuel, bytes_eq, queryLoop_table h hlt, hresult]

theorem decodedField_flag (field : Field) : (decodedField field).1 = -1 ↔ field = none := by
  cases field with
  | none => exact ⟨fun _ => rfl, fun _ => rfl⟩
  | some value =>
    refine ⟨fun h => ?_, nofun⟩
    change (value.length : Int) = -1 at h
    omega

/-- An empty string is not stored. -/
theorem cellOf_value (i : Nat) (value : List UInt8) :
    cellOf i (decodedField (some value)) = .string value ↔ value ≠ [] := by
  cases value with
  | nil =>
    refine ⟨fun h => ?_, fun h => absurd rfl h⟩
    change (if i < 1024 then Cell.null else Cell.unset) = .string [] at h
    split at h
    · cases h
    · cases h
  | cons b value => exact ⟨fun _ => nofun, fun _ => rfl⟩

theorem getElem?_rows (h : q.Legal major) {r c : Nat} {row : List Field} {field : Field}
    (hrow : q.rows[r]? = some row) (hcell : row[c]? = some field) :
    q.rows.flatten[r * q.width + c]? = some field := by
  have hc : c < row.length := (List.getElem?_eq_some_iff.mp hcell).1
  rw [h.rows_width row (List.mem_of_getElem? hrow)] at hc
  rw [getElem?_flatten h.rows_width hrow hc, hcell]

theorem data_received {i : Nat} {field : Field} (hi : q.rows.flatten[i]? = some field) :
    (q.received major).data[i]? = some (cellOf i (decodedField field)) := by
  change (cells 0 (q.rows.flatten.map decodedField))[i]? = _
  rw [cells, List.getElem?_mapIdx, List.getElem?_map, hi, Nat.zero_add]
  rfl

theorem matches_received_iff (h : q.Legal major) :
    Matches major (q.received major) q ↔
      (∀ row ∈ q.rows, some [] ∉ row) ∧ (q.rows = [] ∨ q.width ≠ 0) := by
  have hlen : q.rows.flatten.length = q.rows.length * q.width := length_flatten_of_width h.rows_width
  constructor
  · intro hmatches
    constructor
    · intro row hrow hempty
      obtain ⟨r, hr⟩ := List.mem_iff_getElem?.mp hrow
      obtain ⟨c, hc⟩ := List.mem_iff_getElem?.mp hempty
      have hvalue := (hmatches.fields r row c (some []) hr hc).value [] rfl
      rw [data_received (getElem?_rows h hr hc)] at hvalue
      exact (cellOf_value _ []).mp (Option.some.inj hvalue) rfl
    · by_cases hwidth : q.width = 0
      · have hcount : 0 = q.rows.length := by
          have hnumrows := hmatches.numrows
          rwa [received, if_pos hwidth] at hnumrows
        exact .inl (List.eq_nil_of_length_eq_zero hcount.symm)
      · exact .inr hwidth
  · intro ⟨hvalues, hcounted⟩
    refine ⟨?_, rfl, ?_, ?_, ?_⟩
    · obtain hnone | hwidth := hcounted
      · rw [received, hnone]
        exact ite_self _
      · exact if_neg hwidth
    · rw [received, List.length_map, List.length_map, hlen]
    · rw [received, cells, List.length_mapIdx, List.length_map, hlen]
    · intro r row c field hrow hcell
      have hplace := getElem?_rows h hrow hcell
      refine ⟨⟨(decodedField field).1, ?_, decodedField_flag field⟩, ?_⟩
      · rw [received, List.getElem?_map, List.getElem?_map, hplace]
        rfl
      · rintro value rfl
        have hne : value ≠ [] := by
          rintro rfl
          exact hvalues row (List.mem_of_getElem? hrow) (List.mem_of_getElem? hcell)
        rw [data_received hplace, (cellOf_value _ value).mpr hne]

theorem Decodes.columns (h : Decodes major q) : q.width < 2 ^ 15 := by
  obtain ⟨st, hquery, hmatches⟩ := h []
  have hlt := queryLoop_attrinfo hquery (show 0 < 2 ^ 15 by decide)
  rwa [hmatches.attrinfo, List.length_map] at hlt

theorem Decodes.error (hlegal : q.Legal major) (h : Decodes major q) : ErrorFits major q := by
  intro hfailed
  have hlt := Decodes.columns h
  obtain ⟨st, hquery, -⟩ := h []
  obtain ⟨fuel, hfuel⟩ := exists_fuel major q []
  rw [doQuery, hfuel, bytes_eq, queryLoop_table hlegal hlt] at hquery
  cases major with
  | v3 =>
    by_contra hlong
    rw [queryLoop_error_v3 hlegal hfailed (Nat.le_of_not_lt hlong)] at hquery
    cases hquery
  | v2 =>
    by_contra hlong
    obtain ⟨hlong, hafter⟩ := not_or.mp hlong
    rw [List.append_nil, queryLoop_error_v2_last hlegal hfailed (Nat.le_of_not_lt hlong)
      (not_not.mp hafter)] at hquery
    cases hquery

end QueryReply

/-- The result is the contents of the reply exactly if it is one of the replies that `do_query` can
decode. -/
theorem decodes_iff {q : QueryReply} (hlegal : q.Legal major) : Decodes major q ↔ Decodable major q := by
  constructor
  · intro h
    have hcolumns := QueryReply.Decodes.columns h
    have herror := QueryReply.Decodes.error hlegal h
    obtain ⟨st, hquery, hmatches⟩ := h []
    rw [QueryReply.doQuery_eq_received hlegal hcolumns herror] at hquery
    cases hquery
    obtain ⟨hvalues, hcounted⟩ := (QueryReply.matches_received_iff hlegal).mp hmatches
    exact ⟨hcolumns, hvalues, hcounted, herror⟩
  · intro h rest
    exact ⟨q.received major, QueryReply.doQuery_eq_received hlegal h.columns h.error rest,
      (QueryReply.matches_received_iff hlegal).mpr ⟨h.values, h.counted⟩⟩

/-- A table of one column and one row. -/
def oneField (value : List UInt8) : QueryReply where
  before := []
  columns := some [⟨[97], 1, 1, 25, 0xFFFF, 0xFFFFFFFF, 0, nofun⟩]
  items := [.row [some value] []]
  failed := false
  tag := [83, 0]
  after := []
  status := 73

theorem oneField_legal {value : List UInt8} (h : value.length < 2 ^ 30) : (oneField value).Legal .v3 where
  messages := by
    have hdescription : (oneField value).table ++ (oneField value).result :: (oneField value).after =
      [.description [⟨[97], 1, 1, 25, 0xFFFF, 0xFFFFFFFF, 0, nofun⟩], .row [some value] [],
        .text 67 [83, 0]] := rfl
    rw [hdescription]
    simp only [List.forall_mem_cons]
    refine ⟨⟨fun _ => by decide, show 1 < 2 ^ 16 by decide⟩, ⟨fun _ => ?_, ?_, nofun⟩,
      ⟨fun _ => by decide, nofun⟩, nofun⟩
    · change (htons 1 ++ ((htonl value.length ++ value) ++ [])).length + 4 < 2 ^ 31
      simp only [List.length_append, length_htons, length_htonl, List.length_nil]
      omega
    · intro value' hvalue
      rw [List.mem_singleton] at hvalue
      cases hvalue
      omega
  before := nofun
  items := by
    intro m hm
    exact .inr ⟨_, _, _, List.mem_singleton.mp hm, rfl, rfl⟩
  after := nofun

theorem decodes_oneField : Decodes .v3 (oneField [49]) :=
  (decodes_iff (oneField_legal (by decide))).mpr
    ⟨by decide, by decide, .inr nofun, nofun⟩

/-- A null pointer stands for a field that is an empty string. -/
theorem not_decodes_emptyString : (oneField []).Legal .v3 ∧ ¬Decodes .v3 (oneField []) := by
  have hlegal : (oneField []).Legal .v3 := oneField_legal (by decide)
  refine ⟨hlegal, fun h => ?_⟩
  obtain ⟨st, hquery, hmatches⟩ := h []
  rw [QueryReply.doQuery_eq_received hlegal (by decide) nofun] at hquery
  cases hquery
  have hvalue := (hmatches.fields 0 [some []] 0 (some []) rfl rfl).value [] rfl
  exact absurd hvalue nofun

end PgPool.Internal
