import Mathlib.Algebra.Order.BigOperators.Group.List
import PgPool.Internal.Reporting

/-!
# A report is what a query returns

The bytes of a report are a legal reply to a SELECT in either protocol, and `do_query` returns its rows.
-/

namespace PgPool.Internal

open Words
open Pcp.Codec (CString)

variable {major : Proto}

/-! ## The messages of a report -/

namespace Report

/-- The description of a column. -/
def column (p : CString × Nat) : Column where
  name := p.1.1
  oid := 0
  attrnumber := UInt16.ofNat p.2
  typeoid := 0
  size := 0xFFFF
  mod := 0
  format := 0
  named := p.1.2

def columns (r : Report) : List Column := r.fieldNames.zipIdx.map column

/-- A row has no nulls. -/
def row (values : List CString) : QueryMessage :=
  .row (values.map fun value => some value.1) (([0xFF, 0xFF] : List UInt8).take ((values.length + 7) / 8))

/-- The reply that a report is. -/
def reply (major : Proto) (r : Report) : QueryReply where
  before := match major with | .v3 => [] | .v2 => [.text 80 cursorname.1]
  columns := some r.columns
  items := r.rows.map row
  failed := false
  tag := match major with
    | .v3 => (selectMsg r.rows.length).1 ++ [0]
    | .v2 => (selectMsg r.rows.length).1
  after := []
  status := 73

variable (r : Report)

theorem length_columns : r.columns.length = r.fieldNames.length := by
  rw [columns, List.length_map, List.length_zipIdx]

theorem rowsOf_map_row (rows : List (List CString)) :
    rowsOf (rows.map row) = rows.map fun values => values.map fun value => some value.1 := by
  induction rows with
  | nil => rfl
  | cons values rows ih => exact congrArg (_ :: ·) ih

/-! ## Bytes -/

theorem bytes_column {p : CString × Nat} (h : p.2 < 2 ^ 16) :
    (column p).bytes major = descriptionField major p.1 p.2 := by
  have hnum : (UInt16.ofNat p.2).toNat = p.2 := UInt16.toNat_ofNat_of_lt h
  cases major with
  | v3 =>
    unfold Column.bytes column descriptionField
    rw [hnum]
    rfl
  | v2 => rfl

theorem flatMap_columns : r.columns.flatMap (Column.bytes major) = descriptionFields major r.fieldNames := by
  unfold columns descriptionFields
  rw [List.flatMap_map]
  refine List.flatMap_congr fun p hp => bytes_column ?_
  have hlt := List.snd_lt_of_mem_zipIdx hp
  have hfew := r.few
  omega

theorem length_descriptionField (name : CString) (i : Nat) :
    (descriptionField .v3 name i).length = name.1.length + 1 + 18 := by
  simp only [descriptionField, List.length_append, List.length_cons, length_htonl, length_htons]

theorem length_descriptionFields (names : List CString) (i : Nat) :
    ((names.zipIdx i).flatMap fun p => descriptionField .v3 p.1 p.2).length =
      (names.map fun name => name.1.length + 1 + 18).sum := by
  induction names generalizing i with
  | nil => rfl
  | cons name names ih =>
    rw [List.zipIdx_cons, List.flatMap_cons, List.length_append, ih, length_descriptionField]
    rfl

theorem length_values (values : List CString) :
    (values.flatMap fun value => htonl value.1.length ++ value.1).length =
      (values.map fun value => 4 + value.1.length).sum := by
  rw [List.length_flatMap]
  refine congrArg List.sum (List.map_congr_left fun value _ => ?_)
  rw [List.length_append, length_htonl]

theorem bytes_row {values : List CString} {numFields : Nat} (h : values.length = numFields) :
    (row values).bytes major = sendRow major numFields values := by
  subst h
  cases major with
  | v3 =>
    have hfields : (values.map fun value => some value.1).flatMap (fieldBytes .v3) =
        values.flatMap fun value => htonl value.1.length ++ value.1 := by
      rw [List.flatMap_map]
      rfl
    simp only [QueryMessage.bytes, QueryMessage.body, QueryMessage.packet, QueryMessage.kind, row, sendRow,
      List.length_map, hfields, List.length_append, length_htons, length_values]
    congr 3
    omega
  | v2 =>
    have hfields : (values.map fun value => some value.1).flatMap (fieldBytes .v2) =
        values.flatMap fun value => htonl (value.1.length + 4) ++ value.1 := by
      rw [List.flatMap_map]
      rfl
    simp only [QueryMessage.bytes, QueryMessage.body, QueryMessage.kind, row, sendRow, hfields]

theorem flatMap_rows : (r.rows.map row).flatMap (QueryMessage.bytes major) =
    r.rows.flatMap (sendRow major r.fieldNames.length) := by
  rw [List.flatMap_map]
  exact List.flatMap_congr fun values hvalues => bytes_row (r.width values hvalues)

/-- What is written is the reply. -/
theorem bytes_reply : (r.reply major).bytes major = r.bytes major := by
  cases major with
  | v3 =>
    have hsize : (htons r.columns.length ++ descriptionFields .v3 r.fieldNames).length + 4 =
        6 + (r.fieldNames.map fun name => name.1.length + 1 + 18).sum := by
      rw [List.length_append, length_htons, descriptionFields, length_descriptionFields]
      omega
    have hdescription : (QueryMessage.description r.columns).bytes .v3 =
        sendRowDescription .v3 r.fieldNames := by
      simp only [QueryMessage.bytes, QueryMessage.body, QueryMessage.packet, QueryMessage.kind,
        flatMap_columns, hsize]
      rw [length_columns]
      rfl
    have hend : (r.reply .v3).result.bytes .v3 ++ readyBytes .v3 73 =
        sendCompleteAndReady .v3 r.rows.length := by
      simp [reply, QueryReply.result, QueryMessage.bytes, QueryMessage.body, QueryMessage.packet,
        QueryMessage.kind, sendCompleteAndReady, readyBytes, Nat.add_comm]
    have htable : (r.reply .v3).table = .description r.columns :: r.rows.map row := rfl
    rw [QueryReply.bytes, htable, List.cons_append, List.flatMap_cons, List.flatMap_append, flatMap_rows,
      hdescription, List.append_assoc, List.append_assoc]
    refine congrArg (_ ++ ·) (congrArg (_ ++ ·) ?_)
    rw [← hend]
    exact congrArg (· ++ _) (List.append_nil _)
  | v2 =>
    have hdescription : QueryMessage.bytes .v2 (.text 80 cursorname.1) ++
        (QueryMessage.description r.columns).bytes .v2 = sendRowDescription .v2 r.fieldNames := by
      simp only [QueryMessage.bytes, QueryMessage.body, QueryMessage.kind, flatMap_columns, length_columns]
      simp [sendRowDescription]
    have hend : (r.reply .v2).result.bytes .v2 ++ readyBytes .v2 73 =
        sendCompleteAndReady .v2 r.rows.length := by
      simp [reply, QueryReply.result, QueryMessage.bytes, QueryMessage.body, QueryMessage.kind,
        sendCompleteAndReady, readyBytes]
    have htable : (r.reply .v2).table =
        .text 80 cursorname.1 :: .description r.columns :: r.rows.map row := rfl
    rw [QueryReply.bytes, htable, List.cons_append, List.cons_append, List.flatMap_cons, List.flatMap_cons,
      List.flatMap_append, flatMap_rows, ← List.append_assoc, hdescription, List.append_assoc,
      List.append_assoc]
    refine congrArg (_ ++ ·) (congrArg (_ ++ ·) ?_)
    rw [← hend]
    exact congrArg (· ++ _) (List.append_nil _)

/-! ## The reply is legal -/

theorem sum_map_le {α : Type} {f : α → Nat} {bound : Nat} {as : List α} (h : ∀ a ∈ as, f a ≤ bound) :
    (as.map f).sum ≤ as.length * bound := by
  have hsum := List.sum_le_card_nsmul (as.map f) bound (by simpa using h)
  rwa [List.length_map] at hsum

theorem legal_columns : (QueryMessage.description r.columns).Legal major := by
  have hfew := r.few
  have hcolumns := r.length_columns
  refine ⟨?_, ?_⟩
  · rintro rfl
    have hsum : (r.fieldNames.map fun name => name.1.length + 1 + 18).sum ≤ r.fieldNames.length * 83 :=
      sum_map_le fun name hname => by
        have := r.named name hname
        omega
    simp only [QueryMessage.packet, flatMap_columns, descriptionFields, List.length_append, length_htons,
      length_descriptionFields]
    omega
  · change r.columns.length < 2 ^ 16
    omega

/-- The bits of the columns are set. -/
theorem nullBit_full {n i : Nat} (hn : n ≤ 16) (hi : i < n) :
    nullBit (([0xFF, 0xFF] : List UInt8).take ((n + 7) / 8)) i = true := by
  have hbyte : (([0xFF, 0xFF] : List UInt8).take ((n + 7) / 8)).getD (i / 8) 0 = 0xFF := by
    have hcases : i / 8 = 0 ∨ i / 8 = 1 := by omega
    rw [List.getD_eq_getElem?_getD, List.getElem?_take_of_lt (by omega)]
    obtain h | h := hcases
    · rw [h]
      rfl
    · rw [h]
      rfl
  rw [nullBit, hbyte]
  have hbit : i % 8 < 8 := Nat.mod_lt _ (by decide)
  generalize i % 8 = j at hbit
  revert j
  decide

theorem legal_row {values : List CString} (hlength : values.length ≤ 16)
    (hvalues : ∀ value ∈ values, value.1.length ≤ 512) : (row values).Legal major := by
  refine ⟨?_, ?_, ?_⟩
  · rintro rfl
    have hsum : (values.map fun value => 4 + value.1.length).sum ≤ values.length * 516 :=
      sum_map_le fun value hvalue => by
        have := hvalues value hvalue
        omega
    have hfields : (values.map fun value => some value.1).flatMap (fieldBytes .v3) =
        values.flatMap fun value => htonl value.1.length ++ value.1 := by
      rw [List.flatMap_map]
      rfl
    simp only [row, QueryMessage.packet, hfields, List.length_append, length_htons, length_values]
    omega
  · intro value hvalue
    obtain ⟨text, htext, heq⟩ := List.mem_map.mp hvalue
    cases heq
    have := hvalues text htext
    omega
  · rintro rfl
    rw [List.length_map]
    refine ⟨?_, fun i field hfield => ?_⟩
    · rw [List.length_take]
      change min _ 2 = _
      omega
    · rw [List.getElem?_map] at hfield
      obtain ⟨value, hvalue, rfl⟩ := Option.map_eq_some_iff.mp hfield
      have hi := (List.getElem?_eq_some_iff.mp hvalue).1
      rw [nullBit_full hlength hi]
      rfl

theorem legal_tag : (r.reply major).result.Legal major := by
  have hshort : (selectMsg r.rows.length).1.length ≤ 15 := by
    change (List.take 15 _).length ≤ 15
    exact List.length_take_le _ _
  refine ⟨?_, ?_⟩
  · rintro rfl
    change ((selectMsg r.rows.length).1 ++ [0]).length + 4 < 2 ^ 31
    rw [List.length_append, List.length_singleton]
    omega
  · rintro rfl
    exact (selectMsg r.rows.length).2

theorem legal_reply : (r.reply major).Legal major where
  messages := by
    have hrows : ∀ m ∈ r.rows.map row, m.Legal major := by
      intro m hm
      obtain ⟨values, hvalues, rfl⟩ := List.mem_map.mp hm
      exact legal_row (r.width values hvalues ▸ r.few) (r.values values hvalues)
    cases major with
    | v3 =>
      change ∀ m ∈ .description r.columns :: r.rows.map row ++ [(r.reply .v3).result], _
      rw [List.forall_mem_append, List.forall_mem_cons, List.forall_mem_singleton]
      exact ⟨⟨r.legal_columns, hrows⟩, r.legal_tag⟩
    | v2 =>
      change ∀ m ∈ .text 80 cursorname.1 :: .description r.columns :: r.rows.map row ++
        [(r.reply .v2).result], _
      rw [List.forall_mem_append, List.forall_mem_cons, List.forall_mem_cons, List.forall_mem_singleton]
      exact ⟨⟨⟨by simp, fun _ => cursorname.2⟩, r.legal_columns, hrows⟩, r.legal_tag⟩
  before := by
    cases major with
    | v3 => exact fun _ h => absurd h List.not_mem_nil
    | v2 => exact List.forall_mem_singleton.mpr (.inr (.inr ⟨rfl, rfl⟩))
  items := by
    intro m hm
    obtain ⟨values, hvalues, rfl⟩ := List.mem_map.mp hm
    refine .inr ⟨_, _, r.columns, rfl, rfl, ?_⟩
    rw [List.length_map, length_columns]
    exact r.width values hvalues
  after := fun _ h => absurd h List.not_mem_nil

end Report

/-! ## What is returned -/

/-- The result has the columns and the rows of the report.  There is a length for every value, and a string
unless it is empty. -/
structure Reported (st : QueryState) (r : Report) : Prop where
  numFields : st.numFields = r.fieldNames.length
  attrnames : st.attrinfo.map AttrInfo.attrname = r.fieldNames.map (·.1)
  numrows : st.numrows = r.rows.length
  size : st.nullflags.length = r.rows.length * r.fieldNames.length ∧
    st.data.length = r.rows.length * r.fieldNames.length
  values : ∀ i values j value, r.rows[i]? = some values → values[j]? = some value →
    st.nullflags[i * r.fieldNames.length + j]? = some (value.1.length : Int) ∧
      (value.1 ≠ [] → st.data[i * r.fieldNames.length + j]? = some (.string value.1))

namespace Report

variable (r : Report)

theorem width_reply : (r.reply major).width = r.fieldNames.length := r.length_columns

theorem rows_reply : (r.reply major).rows = r.rows.map fun values => values.map fun value => some value.1 :=
  rowsOf_map_row r.rows

theorem reported_received : Reported ((r.reply major).received major) r where
  numFields := congrArg Nat.cast r.width_reply
  attrnames := by
    change ((r.columns.map (Column.attr major)).map AttrInfo.attrname) = _
    rw [List.map_map, columns, List.map_map]
    have hname : (AttrInfo.attrname ∘ Column.attr major) ∘ column = fun p => p.1.1 := rfl
    rw [hname]
    exact (List.map_map (f := Prod.fst) (g := fun name : CString => name.1)).symm.trans
      (congrArg _ (List.zipIdx_map_fst 0 _))
  numrows := by
    have hwidth : (r.reply major).width ≠ 0 := by
      rw [width_reply]
      exact fun h => r.nonempty (List.eq_nil_of_length_eq_zero h)
    change (if (r.reply major).width = 0 then 0 else (r.reply major).rows.length) = _
    rw [if_neg hwidth, rows_reply, List.length_map]
  size := by
    have hlength : (r.reply major).rows.flatten.length = r.rows.length * r.fieldNames.length := by
      rw [length_flatten_of_width r.legal_reply.rows_width, width_reply, rows_reply, List.length_map]
    constructor
    · rw [QueryReply.received, List.length_map, List.length_map, hlength]
    · rw [QueryReply.received, cells, List.length_mapIdx, List.length_map, hlength]
  values := by
    intro i values j value hvalues hvalue
    have hrow : (r.reply major).rows[i]? = some (values.map fun value => some value.1) := by
      rw [rows_reply, List.getElem?_map, hvalues]
      rfl
    have hfield : (values.map fun value => some value.1)[j]? = some (some value.1) := by
      rw [List.getElem?_map, hvalue]
      rfl
    have hplace := QueryReply.getElem?_rows r.legal_reply hrow hfield
    rw [width_reply] at hplace
    refine ⟨?_, fun hne => ?_⟩
    · rw [QueryReply.received, List.getElem?_map, List.getElem?_map, hplace]
      rfl
    · rw [QueryReply.data_received hplace, (QueryReply.cellOf_value _ value.1).mpr hne]

/-- **A report reaches a pgpool in front of this one**: in either protocol, `do_query` reads it up to its
end, whatever follows, and returns its columns and rows. -/
theorem doQuery_bytes (major : Proto) (r : Report) (rest : List UInt8) :
    ∃ st, doQuery major (r.bytes major ++ rest) = some (st, rest) ∧ Reported st r := by
  have hlt : (r.reply major).width < 2 ^ 15 := by
    have hfew := r.few
    rw [width_reply]
    omega
  have hdecoded := QueryReply.doQuery_eq_received r.legal_reply hlt (fun h => absurd h Bool.false_ne_true) rest
  rw [bytes_reply] at hdecoded
  exact ⟨_, hdecoded, r.reported_received⟩

end Report

end PgPool.Internal
