import Mathlib.Data.List.Flatten
import PgPool.Internal.QueryReply

/-!
# Runs of the loop of do_query

A round of the loop takes one message and leaves what follows it.  What a whole run has gathered is a
fold over the messages.
-/

namespace PgPool.Internal

open Words

variable {major : Proto} {st : QueryState} {m : QueryMessage} {ms : List QueryMessage} {fuel : Nat}
  {rest : List UInt8}

/-! ## What is gathered -/

/-- The element of `data` for a field that is the `i`-th one. -/
def cellOf (i : Nat) (field : Int × Option (List UInt8)) : Cell :=
  match field.2 with
  | some value => .string value
  | none => initialCell i

def cells (i : Nat) (fields : List (Int × Option (List UInt8))) : List Cell :=
  fields.mapIdx fun j field => cellOf (i + j) field

theorem cells_append (i : Nat) (fields fields' : List (Int × Option (List UInt8))) :
    cells i (fields ++ fields') = cells i fields ++ cells (i + fields.length) fields' := by
  unfold cells
  rw [List.mapIdx_append]
  congr 2
  funext j field
  rw [Nat.add_comm j, Nat.add_assoc]

theorem foldl_push (st : QueryState) (fields : List (Int × Option (List UInt8))) :
    fields.foldl QueryState.push st =
      { st with
        nullflags := st.nullflags ++ fields.map Prod.fst
        data := st.data ++ cells st.data.length fields } := by
  induction fields generalizing st with
  | nil => simp [cells]
  | cons field fields ih =>
    have hcells := cells_append st.data.length [field] fields
    rw [List.singleton_append] at hcells
    rw [List.foldl_cons, ih, hcells]
    simp only [QueryState.push, List.map_cons, List.append_assoc, List.singleton_append,
      List.length_append, List.length_singleton]
    rfl

/-- What a message adds to the result. -/
def absorb (major : Proto) (st : QueryState) : QueryMessage → QueryState
  | .text _ _ => st
  | .description columns =>
    st.describe columns.length (if columns = [] then st.attrinfo else columns.map (Column.attr major))
  | .row fields _ => if fields = [] then st else st.addRow (fields.map decodedField)

/-- The rows among some messages. -/
def rowsOf (ms : List QueryMessage) : List (List Field) :=
  ms.filterMap fun
    | .row fields _ => some fields
    | _ => none

/-- A message by which the number of the fields is not changed. -/
def Continues (numFields : Int) : QueryMessage → Prop
  | .text _ _ => True
  | .description _ => False
  | .row fields _ => fields.length = numFields

theorem absorb_numFields (h : Continues st.numFields m) : (absorb major st m).numFields = st.numFields := by
  cases m with
  | text kind string => rfl
  | description columns => exact h.elim
  | row fields nullmap =>
    by_cases hempty : fields = []
    · rw [absorb, if_pos hempty]
    · rw [absorb, if_neg hempty, QueryState.addRow, foldl_push]

/-- What messages after the description add. -/
theorem foldl_absorb (h : ∀ m ∈ ms, Continues st.numFields m) :
    ms.foldl (absorb major) st =
      { st with
        numrows := st.numrows + if st.numFields = 0 then 0 else (rowsOf ms).length
        nullflags := st.nullflags ++ ((rowsOf ms).flatten.map decodedField).map Prod.fst
        data := st.data ++ cells st.data.length ((rowsOf ms).flatten.map decodedField) } := by
  induction ms generalizing st with
  | nil => simp [rowsOf, cells]
  | cons m ms ih =>
    have hm := h m List.mem_cons_self
    have hms : ∀ m' ∈ ms, Continues (absorb major st m).numFields m' := by
      intro m' hm'
      rw [absorb_numFields hm]
      exact h m' (List.mem_cons_of_mem _ hm')
    rw [List.foldl_cons, ih hms, absorb_numFields hm]
    cases m with
    | text kind string => rfl
    | description columns => exact hm.elim
    | row fields nullmap =>
      have hwidth : (fields.length : Int) = st.numFields := hm
      have hrows : rowsOf (.row fields nullmap :: ms) = fields :: rowsOf ms := rfl
      rw [hrows, List.flatten_cons, List.map_append, cells_append]
      by_cases hempty : fields = []
      · subst hempty
        have hzero : st.numFields = 0 := hwidth.symm
        simp [absorb, hzero, cells]
      · have hpos : st.numFields ≠ 0 := by
          have := List.length_pos_iff.mpr hempty
          omega
        rw [absorb, if_neg hempty, QueryState.addRow, foldl_push]
        simp [hpos, cells]
        omega

/-! ## Rounds -/

/-- The kinds of messages of which nothing is kept. -/
def Skipped (major : Proto) (kind : UInt8) : Prop :=
  kind = 67 ∨ kind = 69 ∨ kind = 78 ∨ (major = .v3 ∧ kind = 83) ∨ (major = .v2 ∧ kind = 80)

/-- Counts fit into a short, and an error into the buffer. -/
def Fits (major : Proto) : QueryMessage → Prop
  | .text kind string => kind = 69 →
    match major with
    | .v3 => 4 + string.length < peekBufSz
    | .v2 => string.length + 1 < peekBufSz
  | .description columns => columns.length < 2 ^ 15
  | .row fields _ => fields.length < 2 ^ 15

theorem readPacket3_append {packet : List UInt8} (h : packet.length + 4 < 2 ^ 31) (rest : List UInt8) :
    readPacket3 (htonl (packet.length + 4) ++ packet ++ rest) = some (packet, rest) := by
  have hsize : contentsSize (htonl (packet.length + 4)) = some packet.length := by
    unfold contentsSize
    rw [ntohl_htonl (by omega), if_pos (by omega)]
    rfl
  unfold readPacket3
  rw [List.append_assoc, Reader.take_append (length_htonl _)]
  simp only [Option.bind_eq_bind, Option.bind_some, hsize]
  exact Reader.take_append rfl rest

theorem extractErrorMessage_v3 {packet : List UInt8} (h : packet.length + 4 < 2 ^ 31)
    (rest : List UInt8) :
    extractErrorMessage .v3 (htonl (packet.length + 4) ++ packet ++ rest) =
      if peekBufSz ≤ 4 + packet.length then none
      else some (htonl (packet.length + 4) ++ packet ++ rest) := by
  unfold extractErrorMessage
  rw [readPacket3_append h]
  rfl

theorem extractErrorMessage_v2 {string : List UInt8} (h : 0 ∉ string) (rest : List UInt8) :
    extractErrorMessage .v2 (string ++ [0] ++ rest) =
      some ((string ++ [0]).take (peekBufSz - 1) ++ rest) := by
  unfold extractErrorMessage
  rw [List.append_assoc, List.singleton_append, Reader.upTo_append h]
  rfl

theorem skipped_not_data {kind : UInt8} (h : Skipped major kind) : kind ≠ 84 ∧ kind ≠ 68 ∧ kind ≠ 90 := by
  obtain rfl | rfl | rfl | ⟨-, rfl⟩ | ⟨-, rfl⟩ := h <;> decide

theorem queryRound_of_extract {kind : UInt8} {tape : List UInt8}
    (h : kind = 69 → extractErrorMessage major tape = some tape) :
    queryRound major kind st tape = handleMessage major kind st tape := by
  unfold queryRound
  by_cases herror : kind = 69
  · rw [if_pos herror, h herror]
    rfl
  · exact if_neg herror

theorem handleMessage_v3 {kind : UInt8} {packet : List UInt8} (hlen : packet.length + 4 < 2 ^ 31)
    (rest : List UInt8) :
    handleMessage .v3 kind st (htonl (packet.length + 4) ++ packet ++ rest) =
      (handle3 kind packet st).map fun st => (st, rest) := by
  unfold handleMessage
  simp only [Option.bind_eq_bind, readPacket3_append hlen, Option.bind_some]
  cases handle3 kind packet st <;> rfl

/-- A string is skipped. -/
theorem handleMessage_v2 {kind : UInt8} {string : List UInt8} (hkind : Skipped .v2 kind)
    (hstring : 0 ∉ string) (rest : List UInt8) :
    handleMessage .v2 kind st (string ++ [0] ++ rest) = some (st, rest) := by
  obtain ⟨hdescription, hrow, -⟩ := skipped_not_data hkind
  have hstrings : kind = 67 ∨ kind = 69 ∨ kind = 78 ∨ kind = 80 := by
    obtain h | h | h | ⟨h, -⟩ | ⟨-, h⟩ := hkind
    · exact .inl h
    · exact .inr (.inl h)
    · exact .inr (.inr (.inl h))
    · cases h
    · exact .inr (.inr (.inr h))
  have hhandle : handle2 kind st rest = some (st, rest) := by
    unfold handle2
    rw [if_neg hdescription, if_neg hrow]
  unfold handleMessage skipString2
  rw [if_pos hstrings, List.append_assoc, List.singleton_append, Reader.upTo_append hstring]
  exact hhandle

theorem queryRound_text {kind : UInt8} {string : List UInt8} (hkind : Skipped major kind)
    (hlegal : (QueryMessage.text kind string).Legal major) (hfits : Fits major (.text kind string))
    (rest : List UInt8) :
    queryRound major kind st ((QueryMessage.text kind string).body major ++ rest) = some (st, rest) := by
  cases major with
  | v3 =>
    obtain ⟨hdescription, hrow, -⟩ := skipped_not_data hkind
    have hlen : string.length + 4 < 2 ^ 31 := hlegal.1 rfl
    have hhandle : handle3 kind string st = some st := by
      unfold handle3
      rw [if_neg hdescription, if_neg hrow]
    unfold QueryMessage.body QueryMessage.packet
    rw [queryRound_of_extract, handleMessage_v3 hlen, hhandle]
    · rfl
    · intro herror
      have hshort : 4 + string.length < peekBufSz := hfits herror
      rw [extractErrorMessage_v3 hlen, if_neg (by omega)]
  | v2 =>
    have hstring : 0 ∉ string := hlegal.2 rfl
    unfold QueryMessage.body
    rw [queryRound_of_extract]
    · exact handleMessage_v2 hkind hstring rest
    · intro herror
      have hshort : string.length + 1 < peekBufSz := hfits herror
      rw [extractErrorMessage_v2 hstring, List.take_of_length_le]
      rw [List.length_append, List.length_singleton]
      omega

/-- In protocol V3, rounds for descriptions and rows handle the packet. -/
theorem queryRound_v3 (hkind : m.kind ≠ 69) (hlegal : m.Legal .v3) (rest : List UInt8) :
    queryRound .v3 m.kind st (m.body .v3 ++ rest) =
      (handle3 m.kind m.packet st).map fun st => (st, rest) :=
  (queryRound_of_extract fun h => absurd h hkind).trans (handleMessage_v3 (hlegal.1 rfl) rest)

theorem queryRound_v2 {kind : UInt8} (hkind : kind = 84 ∨ kind = 68) (tape : List UInt8) :
    queryRound .v2 kind st tape = handle2 kind st tape := by
  obtain rfl | rfl := hkind <;> rfl

theorem queryRound_description {columns : List Column}
    (hlegal : (QueryMessage.description columns).Legal major) (hlt : columns.length < 2 ^ 15)
    (rest : List UInt8) :
    queryRound major 84 st ((QueryMessage.description columns).body major ++ rest) =
      some (absorb major st (.description columns), rest) := by
  have hcount : int16 (htons columns.length) = columns.length := int16_htons hlt
  have hpos : (0 : Int) < columns.length ↔ columns ≠ [] := by
    rw [← List.length_pos_iff]
    omega
  cases major with
  | v3 =>
    have hmany : Reader.many readColumn3 columns.length (columns.flatMap (Column.bytes .v3)) =
        some (columns.map (Column.attr .v3), []) := by
      rw [← many_flatMap (fun c _ => readColumn3_bytes c) [], List.append_nil]
    refine (queryRound_v3 (m := .description columns) nofun hlegal rest).trans ?_
    have hhandle : handle3 84 (htons columns.length ++ columns.flatMap (Column.bytes .v3)) st =
        some (absorb .v3 st (.description columns)) := by
      unfold handle3
      rw [if_pos rfl, Reader.take_append (length_htons _)]
      simp only [Option.bind_eq_bind, Option.bind_some, hcount, hpos, Int.toNat_natCast, hmany]
      by_cases hempty : columns = []
      · rw [if_neg (not_not_intro hempty), absorb, if_pos hempty]
      · rw [if_pos hempty, absorb, if_neg hempty]
    exact congrArg (Option.map fun st => (st, rest)) hhandle
  | v2 =>
    have hmany : Reader.many readColumn2 columns.length (columns.flatMap (Column.bytes .v2) ++ rest) =
        some (columns.map (Column.attr .v2), rest) := many_flatMap (fun c _ => readColumn2_bytes c) rest
    refine (queryRound_v2 (.inl rfl) _).trans ?_
    unfold QueryMessage.body handle2
    rw [if_pos rfl, List.append_assoc, Reader.take_append (length_htons _)]
    simp only [Option.bind_eq_bind, Option.bind_some, hcount, hpos, Int.toNat_natCast, hmany]
    by_cases hempty : columns = []
    · subst hempty
      rfl
    · rw [if_pos hempty, absorb, if_neg hempty]

theorem queryRound_row {fields : List Field} {nullmap : List UInt8}
    (hlegal : (QueryMessage.row fields nullmap).Legal major) (hlt : fields.length < 2 ^ 15)
    (hwidth : (fields.length : Int) = st.numFields) (rest : List UInt8) :
    queryRound major 68 st ((QueryMessage.row fields nullmap).body major ++ rest) =
      some (absorb major st (.row fields nullmap), rest) := by
  have hpos : (0 : Int) < fields.length ↔ fields ≠ [] := by
    rw [← List.length_pos_iff]
    omega
  have hvalues := hlegal.2.1
  cases major with
  | v3 =>
    have hcount : int16 (htons fields.length) = fields.length := int16_htons hlt
    have hread : ∀ field ∈ fields, ∀ rest, readSized fieldSize3 (fieldBytes .v3 field ++ rest) =
        some (decodedField field, rest) := fun field hfield =>
      readSized_fieldBytes fun value hvalue => hvalues value (hvalue ▸ hfield)
    have hmany : Reader.many (readSized fieldSize3) fields.length (fields.flatMap (fieldBytes .v3)) =
        some (fields.map decodedField, []) := by
      rw [← many_flatMap hread [], List.append_nil]
    refine (queryRound_v3 (m := .row fields nullmap) nofun hlegal rest).trans ?_
    have hhandle : handle3 68 (htons fields.length ++ fields.flatMap (fieldBytes .v3)) st =
        some (absorb .v3 st (.row fields nullmap)) := by
      have hst : { st with numFields := (fields.length : Int) } = st := by
        rw [hwidth]
      unfold handle3
      rw [if_neg (by decide), if_pos rfl, Reader.take_append (length_htons _)]
      simp only [Option.bind_eq_bind, Option.bind_some, hcount, hpos, Int.toNat_natCast, hmany, hst]
      by_cases hempty : fields = []
      · rw [if_neg (not_not_intro hempty), absorb, if_pos hempty]
      · rw [if_pos hempty, absorb, if_neg hempty]
    exact congrArg (Option.map fun st => (st, rest)) hhandle
  | v2 =>
    obtain ⟨hmap, hbits⟩ := hlegal.2.2 rfl
    have hfields := readFields2_flatMap (i := 0) (fun j field hj => by
      rw [Nat.zero_add]
      exact hbits j field hj) hvalues rest
    refine (queryRound_v2 (.inr rfl) _).trans ?_
    unfold QueryMessage.body handle2
    rw [if_neg (by decide), if_pos rfl, List.append_assoc, ← hwidth, Int.toNat_natCast]
    by_cases hempty : fields = []
    · subst hempty
      have hnull : nullmap = [] := List.eq_nil_of_length_eq_zero hmap
      subst hnull
      rfl
    · rw [if_pos (hpos.mpr hempty), Reader.take_append hmap, absorb, if_neg hempty]
      simp only [Option.bind_eq_bind, Option.bind_some, hfields]

/-! ## Runs -/

/-- A message that the loop gets through. -/
structure Readable (major : Proto) (m : QueryMessage) : Prop where
  legal : m.Legal major
  fits : Fits major m
  skipped : ∀ kind string, m = .text kind string → Skipped major kind

theorem Readable.kind_ne (h : Readable major m) : m.kind ≠ 90 := by
  cases m with
  | text kind string => exact (skipped_not_data (h.skipped kind string rfl)).2.2
  | description columns => exact nofun
  | row fields nullmap => exact nofun

theorem queryLoop_cons (hm : m.kind ≠ 90) {st' : QueryState} {tape : List UInt8}
    (hround : queryRound major m.kind st (m.body major ++ tape) = some (st', rest)) :
    queryLoop major (fuel + 1) st (m.bytes major ++ tape) = queryLoop major fuel st' rest := by
  unfold QueryMessage.bytes
  rw [List.cons_append, queryLoop, hround]
  exact if_neg hm

theorem queryRound_continues (hm : Readable major m) (h : Continues st.numFields m) (rest : List UInt8) :
    queryRound major m.kind st (m.body major ++ rest) = some (absorb major st m, rest) := by
  cases m with
  | text kind string => exact queryRound_text (hm.skipped kind string rfl) hm.legal hm.fits rest
  | description columns => exact h.elim
  | row fields nullmap => exact queryRound_row hm.legal hm.fits h rest

/-- Messages after the description. -/
theorem queryLoop_append (hms : ∀ m ∈ ms, Readable major m)
    (h : ∀ m ∈ ms, Continues st.numFields m) (fuel : Nat) (rest : List UInt8) :
    queryLoop major (fuel + ms.length) st (ms.flatMap (QueryMessage.bytes major) ++ rest) =
      queryLoop major fuel (ms.foldl (absorb major) st) rest := by
  induction ms generalizing st with
  | nil => rfl
  | cons m ms ih =>
    have hm := hms m List.mem_cons_self
    have hcontinues := h m List.mem_cons_self
    have htail : ∀ m' ∈ ms, Continues (absorb major st m).numFields m' := by
      intro m' hm'
      rw [absorb_numFields hcontinues]
      exact h m' (List.mem_cons_of_mem _ hm')
    rw [List.flatMap_cons, List.append_assoc, List.length_cons, ← Nat.add_assoc,
      queryLoop_cons hm.kind_ne (queryRound_continues hm hcontinues _)]
    exact ih (fun m' hm' => hms m' (List.mem_cons_of_mem _ hm')) htail

/-- ReadyForQuery. -/
def readyBytes (major : Proto) (status : UInt8) : List UInt8 :=
  match major with
  | .v3 => 90 :: (htonl 5 ++ [status])
  | .v2 => [90]

theorem queryLoop_ready (status : UInt8) :
    queryLoop major (fuel + 1) st (readyBytes major status ++ rest) = some (st, rest) := by
  cases major with
  | v3 =>
    have hround : queryRound .v3 90 st (htonl 5 ++ [status] ++ rest) = some (st, rest) :=
      handleMessage_v3 (show [status].length + 4 < 2 ^ 31 from (by decide : 1 + 4 < 2 ^ 31)) rest
    unfold readyBytes
    rw [List.cons_append, queryLoop, hround]
    rfl
  | v2 => rfl

/-! ## Columns that a short can count -/

theorem int16_lt {input word tape : List UInt8} (h : Reader.take 2 input = some (word, tape)) :
    int16 word < 2 ^ 15 := by
  obtain ⟨b, b', rfl⟩ := List.length_eq_two.mp (Reader.length_of_take h)
  have hb := b.toNat_lt
  have hb' := b'.toNat_lt
  have hword : ntohs [b, b'] = b.toNat * 256 + b'.toNat := by simp [ntohs, ntohl]
  unfold int16
  rw [hword]
  split
  · omega
  · omega

theorem columns_lt {read : List UInt8 → Option (AttrInfo × List UInt8)}
    {input word tape rest : List UInt8} {columns : List AttrInfo}
    (htake : Reader.take 2 input = some (word, tape))
    (hmany : Reader.many read (int16 word).toNat tape = some (columns, rest)) :
    columns.length < 2 ^ 15 := by
  have hword := int16_lt htake
  have hlen : columns.length = (int16 word).toNat := Reader.length_of_many hmany
  omega

@[simp] theorem addRow_attrinfo (fields : List (Int × Option (List UInt8))) :
    (st.addRow fields).attrinfo = st.attrinfo := by
  rw [QueryState.addRow, foldl_push]

theorem handle3_attrinfo {kind : UInt8} {packet : List UInt8} {st' : QueryState}
    (h : handle3 kind packet st = some st') (hlt : st.attrinfo.length < 2 ^ 15) :
    st'.attrinfo.length < 2 ^ 15 := by
  unfold handle3 at h
  by_cases hdescription : kind = 84
  · simp only [if_pos hdescription, Option.bind_eq_bind, Option.bind_eq_some_iff] at h
    obtain ⟨⟨word, p⟩, htake, h⟩ := h
    by_cases hpos : 0 < int16 word
    · simp only [if_pos hpos, Option.bind_eq_some_iff] at h
      obtain ⟨⟨columns, after⟩, hmany, heq⟩ := h
      cases heq
      exact columns_lt htake hmany
    · simp only [if_neg hpos] at h
      cases h
      exact hlt
  · rw [if_neg hdescription] at h
    by_cases hrow : kind = 68
    · simp only [if_pos hrow, Option.bind_eq_bind, Option.bind_eq_some_iff] at h
      obtain ⟨⟨word, p⟩, -, h⟩ := h
      by_cases hpos : 0 < int16 word
      · simp only [if_pos hpos, Option.bind_eq_some_iff] at h
        obtain ⟨⟨fields, after⟩, -, heq⟩ := h
        cases heq
        rw [addRow_attrinfo]
        exact hlt
      · simp only [if_neg hpos] at h
        cases h
        exact hlt
    · rw [if_neg hrow] at h
      cases h
      exact hlt

theorem handle2_attrinfo {kind : UInt8} {tape tape' : List UInt8} {st' : QueryState}
    (h : handle2 kind st tape = some (st', tape')) (hlt : st.attrinfo.length < 2 ^ 15) :
    st'.attrinfo.length < 2 ^ 15 := by
  unfold handle2 at h
  by_cases hdescription : kind = 84
  · simp only [if_pos hdescription, Option.bind_eq_bind, Option.bind_eq_some_iff] at h
    obtain ⟨⟨word, tape⟩, htake, h⟩ := h
    by_cases hpos : 0 < int16 word
    · simp only [if_pos hpos, Option.bind_eq_some_iff] at h
      obtain ⟨⟨columns, after⟩, hmany, heq⟩ := h
      cases heq
      exact columns_lt htake hmany
    · simp only [if_neg hpos] at h
      cases h
      exact hlt
  · rw [if_neg hdescription] at h
    by_cases hrow : kind = 68 ∧ 0 < st.numFields
    · simp only [if_pos hrow.1, if_pos hrow.2, Option.bind_eq_bind, Option.bind_eq_some_iff] at h
      obtain ⟨⟨nullmap, tape⟩, -, ⟨fields, rest⟩, -, heq⟩ := h
      cases heq
      rw [addRow_attrinfo]
      exact hlt
    · have hsame : some (st, tape) = some (st', tape') := by
        by_cases hkind : kind = 68
        · rwa [if_pos hkind, if_neg fun hpos => hrow ⟨hkind, hpos⟩] at h
        · rwa [if_neg hkind] at h
      cases hsame
      exact hlt

theorem handleMessage_attrinfo {kind : UInt8} {tape tape' : List UInt8} {st' : QueryState}
    (h : handleMessage major kind st tape = some (st', tape')) (hlt : st.attrinfo.length < 2 ^ 15) :
    st'.attrinfo.length < 2 ^ 15 := by
  unfold handleMessage at h
  cases major with
  | v3 =>
    simp only [Option.bind_eq_bind, Option.bind_eq_some_iff] at h
    obtain ⟨⟨packet, tape⟩, -, st'', hhandle, heq⟩ := h
    cases heq
    exact handle3_attrinfo hhandle hlt
  | v2 =>
    simp only [Option.bind_eq_bind, Option.bind_eq_some_iff] at h
    obtain ⟨tape, -, hhandle⟩ := h
    exact handle2_attrinfo hhandle hlt

theorem queryRound_attrinfo {kind : UInt8} {tape tape' : List UInt8} {st' : QueryState}
    (h : queryRound major kind st tape = some (st', tape')) (hlt : st.attrinfo.length < 2 ^ 15) :
    st'.attrinfo.length < 2 ^ 15 := by
  unfold queryRound at h
  by_cases herror : kind = 69
  · rw [if_pos herror, Option.bind_eq_bind, Option.bind_eq_some_iff] at h
    obtain ⟨tape, -, hmessage⟩ := h
    exact handleMessage_attrinfo hmessage hlt
  · rw [if_neg herror] at h
    exact handleMessage_attrinfo h hlt

/-- No run keeps more columns than a short can count. -/
theorem queryLoop_attrinfo {tape tape' : List UInt8} {st' : QueryState}
    (h : queryLoop major fuel st tape = some (st', tape')) (hlt : st.attrinfo.length < 2 ^ 15) :
    st'.attrinfo.length < 2 ^ 15 := by
  induction fuel generalizing st tape with
  | zero => cases h
  | succ fuel ih =>
    cases tape with
    | nil => cases h
    | cons kind tape =>
      rw [queryLoop, Option.bind_eq_bind, Option.bind_eq_some_iff] at h
      obtain ⟨⟨next, tape⟩, hround, hnext⟩ := h
      have hlt' := queryRound_attrinfo hround hlt
      by_cases hready : kind = 90
      · simp only [if_pos hready] at hnext
        cases hnext
        exact hlt'
      · simp only [if_neg hready] at hnext
        exact ih hnext hlt'

end PgPool.Internal
