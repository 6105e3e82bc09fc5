import PgPool.Internal.Query

/-!
# Replies to a query

The messages by which a backend answers a SELECT in either protocol, and how `do_query` reads each of
them.
-/

namespace PgPool.Internal

open Words

variable {major : Proto}

/-! ## Messages -/

/-- The description of a column. -/
structure Column where
  name : List UInt8
  oid : UInt32
  attrnumber : UInt16
  typeoid : UInt32
  size : UInt16
  mod : UInt32
  format : UInt16
  named : 0 ∉ name

/-- What the description says. -/
def Column.attr (major : Proto) (c : Column) : AttrInfo where
  attrname := c.name
  oid := match major with | .v3 => some (c.oid.toNat, c.attrnumber.toNat) | .v2 => none
  typeoid := c.typeoid.toNat
  size := c.size.toNat
  mod := c.mod.toNat

def Column.bytes (major : Proto) (c : Column) : List UInt8 :=
  match major with
  | .v3 => c.name ++ 0 :: (htonl c.oid.toNat ++ (htons c.attrnumber.toNat ++ (htonl c.typeoid.toNat ++
      (htons c.size.toNat ++ (htonl c.mod.toNat ++ htons c.format.toNat)))))
  | .v2 => c.name ++ 0 :: (htonl c.typeoid.toNat ++ (htons c.size.toNat ++ htonl c.mod.toNat))

/-- A field of a row; a null value is absent. -/
abbrev Field := Option (List UInt8)

/-- In protocol V3 null has a length of -1; in protocol V2 it has no bytes, and the length counts
itself. -/
def fieldBytes (major : Proto) : Field → List UInt8
  | none => match major with | .v3 => htonl (2 ^ 32 - 1) | .v2 => []
  | some value =>
    match major with | .v3 => htonl value.length ++ value | .v2 => htonl (value.length + 4) ++ value

/-- A message: a notice (78), a parameter status (83), the name of a cursor (80), CommandComplete (67) or
ErrorResponse (69); a description; a row, with the map of its nulls for protocol V2. -/
inductive QueryMessage where
  | text (kind : UInt8) (string : List UInt8)
  | description (columns : List Column)
  | row (fields : List Field) (nullmap : List UInt8)

namespace QueryMessage

def kind : QueryMessage → UInt8
  | text kind _ => kind
  | description _ => 84
  | row _ _ => 68

/-- The contents of a message of protocol V3. -/
def packet : QueryMessage → List UInt8
  | text _ string => string
  | description columns => htons columns.length ++ columns.flatMap (Column.bytes .v3)
  | row fields _ => htons fields.length ++ fields.flatMap (fieldBytes .v3)

/-- The bytes after the kind. -/
def body (major : Proto) (m : QueryMessage) : List UInt8 :=
  match major with
  | .v3 => htonl (m.packet.length + 4) ++ m.packet
  | .v2 =>
    match m with
    | text _ string => string ++ [0]
    | description columns => htons columns.length ++ columns.flatMap (Column.bytes .v2)
    | row fields nullmap => nullmap ++ fields.flatMap (fieldBytes .v2)

def bytes (major : Proto) (m : QueryMessage) : List UInt8 := m.kind :: m.body major

/-- What is not part of the result. -/
def IsNotice (major : Proto) : QueryMessage → Prop
  | text kind _ => kind = 78 ∨ major = .v3 ∧ kind = 83 ∨ major = .v2 ∧ kind = 80
  | _ => False

/-- Numbers fit into their words, strings of protocol V2 have no null characters, and the map of the nulls
tells which fields are. -/
def Legal (major : Proto) (m : QueryMessage) : Prop :=
  (major = .v3 → m.packet.length + 4 < 2 ^ 31) ∧
    match m with
    | text _ string => major = .v2 → 0 ∉ string
    | description columns => columns.length < 2 ^ 16
    | row fields nullmap =>
      (∀ value, some value ∈ fields → value.length + 4 < 2 ^ 31) ∧
        (major = .v2 → nullmap.length = (fields.length + 7) / 8 ∧
          ∀ i field, fields[i]? = some field → nullBit nullmap i = field.isSome)

end QueryMessage

/-! ## Fields -/

/-- What is kept of a field: its length, and a string unless it is empty. -/
def decodedField : Field → Int × Option (List UInt8)
  | none => (-1, none)
  | some value => (value.length, if value = [] then none else some value)

theorem readSized_value {size : List UInt8 → Int} {word value rest : List UInt8}
    (hword : word.length = 4) (hsize : size word = value.length) :
    readSized size (word ++ (value ++ rest)) = some (decodedField (some value), rest) := by
  unfold readSized decodedField
  rw [Reader.take_append hword]
  simp only [Option.bind_eq_bind, Option.bind_some, hsize]
  by_cases hempty : value = []
  · subst hempty
    rfl
  · have hpos := List.length_pos_iff.mpr hempty
    rw [if_pos (by omega), if_neg hempty, Int.toNat_natCast, Reader.take_append rfl]
    rfl

theorem readSized_null {size : List UInt8 → Int} {word rest : List UInt8} (hword : word.length = 4)
    (hsize : size word = -1) : readSized size (word ++ rest) = some (decodedField none, rest) := by
  unfold readSized decodedField
  rw [Reader.take_append hword]
  simp only [Option.bind_eq_bind, Option.bind_some, hsize]
  rfl

theorem fieldSize3_htonl {n : Nat} (h : n < 2 ^ 31) : fieldSize3 (htonl n) = n := by
  unfold fieldSize3
  rw [ntohl_htonl (by omega)]
  exact int32_natCast_iff.mpr h

theorem fieldSize3_null : fieldSize3 (htonl (2 ^ 32 - 1)) = -1 := by
  unfold fieldSize3
  rw [ntohl_htonl (by omega)]
  decide

theorem fieldSize2_htonl {n : Nat} (h : n + 4 < 2 ^ 31) : fieldSize2 (htonl (n + 4)) = n := by
  unfold fieldSize2
  rw [ntohl_htonl (by omega), int32_natCast_iff.mpr h]
  omega

/-- A field of protocol V3. -/
theorem readSized_fieldBytes {field : Field} (h : ∀ value, field = some value → value.length + 4 < 2 ^ 31)
    (rest : List UInt8) :
    readSized fieldSize3 (fieldBytes .v3 field ++ rest) = some (decodedField field, rest) := by
  cases field with
  | none => exact readSized_null (length_htonl _) fieldSize3_null
  | some value =>
    have hlt := h value rfl
    unfold fieldBytes
    rw [List.append_assoc]
    exact readSized_value (length_htonl _) (fieldSize3_htonl (by omega))

/-- Some fields, each of which is read as something. -/
theorem many_flatMap {α β : Type} {read : List UInt8 → Option (β × List UInt8)}
    {write : α → List UInt8} {f : α → β} {as : List α}
    (h : ∀ a ∈ as, ∀ rest, read (write a ++ rest) = some (f a, rest)) (rest : List UInt8) :
    Reader.many read as.length (as.flatMap write ++ rest) = some (as.map f, rest) := by
  induction as with
  | nil => rfl
  | cons a as ih =>
    have htail := ih fun a ha => h a (List.mem_cons_of_mem _ ha)
    rw [List.length_cons, Reader.many, List.flatMap_cons, List.append_assoc, h a List.mem_cons_self]
    simp only [Option.bind_eq_bind, Option.bind_some, htail]
    rfl

/-- The fields of a row in protocol V2. -/
theorem readFields2_flatMap {nullmap : List UInt8} {fields : List Field} {i : Nat}
    (hbits : ∀ j field, fields[j]? = some field → nullBit nullmap (i + j) = field.isSome)
    (hvalues : ∀ value, some value ∈ fields → value.length + 4 < 2 ^ 31) (rest : List UInt8) :
    readFields2 nullmap i fields.length (fields.flatMap (fieldBytes .v2) ++ rest) =
      some (fields.map decodedField, rest) := by
  induction fields generalizing i with
  | nil => rfl
  | cons field fields ih =>
    have hbit := hbits 0 field rfl
    rw [Nat.add_zero] at hbit
    have htail := ih (i := i + 1) (fun j f hj => by
      have hnext := hbits (j + 1) f hj
      rwa [Nat.add_comm j, ← Nat.add_assoc] at hnext)
      fun value hvalue => hvalues value (List.mem_cons_of_mem _ hvalue)
    rw [List.length_cons, readFields2, List.flatMap_cons, List.append_assoc, hbit]
    cases field with
    | none =>
      simp only [Option.isSome_none, Bool.false_eq_true, if_false, Option.bind_eq_bind, Option.bind_some,
        fieldBytes, List.nil_append, htail]
      rfl
    | some value =>
      have hlt := hvalues value List.mem_cons_self
      have hread : readSized fieldSize2 (fieldBytes .v2 (some value) ++
          (fields.flatMap (fieldBytes .v2) ++ rest)) =
            some (decodedField (some value), fields.flatMap (fieldBytes .v2) ++ rest) := by
        unfold fieldBytes
        rw [List.append_assoc]
        exact readSized_value (length_htonl _) (fieldSize2_htonl hlt)
      simp only [Option.isSome_some, if_true, hread, Option.bind_eq_bind, Option.bind_some, htail]
      rfl

/-! ## Columns -/

theorem ntohl_toNat (n : UInt32) : ntohl (htonl n.toNat) = n.toNat := ntohl_htonl n.toNat_lt

theorem ntohs_toNat (n : UInt16) : ntohs (htons n.toNat) = n.toNat := ntohs_htons n.toNat_lt

theorem readColumn3_bytes (c : Column) (rest : List UInt8) :
    readColumn3 (c.bytes .v3 ++ rest) = some (c.attr .v3, rest) := by
  have hfour : ∀ (n : UInt32) (rest : List UInt8), Reader.take 4 (htonl n.toNat ++ rest) =
      some (htonl n.toNat, rest) := fun n => Reader.take_append (length_htonl _)
  have htwo : ∀ (n : UInt16) (rest : List UInt8), Reader.take 2 (htons n.toNat ++ rest) =
      some (htons n.toNat, rest) := fun n => Reader.take_append (length_htons _)
  unfold readColumn3 Column.bytes
  simp only [List.append_assoc, List.cons_append]
  rw [Reader.upTo_append c.named]
  simp only [Option.bind_eq_bind, Option.bind_some, hfour, htwo, ntohl_toNat, ntohs_toNat]
  rfl

theorem readColumn2_bytes (c : Column) (rest : List UInt8) :
    readColumn2 (c.bytes .v2 ++ rest) = some (c.attr .v2, rest) := by
  have hfour : ∀ (n : UInt32) (rest : List UInt8), Reader.take 4 (htonl n.toNat ++ rest) =
      some (htonl n.toNat, rest) := fun n => Reader.take_append (length_htonl _)
  have htwo : ∀ (n : UInt16) (rest : List UInt8), Reader.take 2 (htons n.toNat ++ rest) =
      some (htons n.toNat, rest) := fun n => Reader.take_append (length_htons _)
  unfold readColumn2 Column.bytes
  simp only [List.append_assoc, List.cons_append]
  rw [Reader.upTo_append c.named]
  simp only [Option.bind_eq_bind, Option.bind_some, hfour, htwo, ntohl_toNat, ntohs_toNat]
  rfl

end PgPool.Internal
