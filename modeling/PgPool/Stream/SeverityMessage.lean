import PgPool.Lib.Buffer
import PgPool.Lib.Reader
import PgPool.Stream.Message
import PgPool.Parser.Deparse
import Mathlib.Data.Nat.Digits.Lemmas

/-!
# Error messages to the frontend

`pool_send_severity_message`.  Each field of the message is printed into `msgbuf`, and copied from there
into `data`.
-/

namespace PgPool

open Deparse

/-- `MAXMSGBUF`. -/
def maxMsgBuf : Nat := 256

/-- `MAXDATA`. -/
def maxData : Nat := (maxMsgBuf + 1) * 7 + 1

/-- A string of C. -/
structure CText where
  bytes : List UInt8
  noNul : 0 ∉ bytes

/-- The severities that `pool_send_error_message` and `pool_send_fatal_message` ask for. -/
inductive Severity where
  | error
  | fatal
  deriving DecidableEq, Repr

def Severity.text : Severity → CText
  | .error => ⟨[69, 82, 82, 79, 82], by decide⟩
  | .fatal => ⟨[70, 65, 84, 65, 76], by decide⟩

/-- The kinds of fields. -/
inductive FieldTag where
  | severity
  | code
  | message
  | detail
  | hint
  | file
  | line
  deriving DecidableEq, Repr

/-- S, C, M, D, H, F and L. -/
def FieldTag.byte : FieldTag → UInt8
  | .severity => 83
  | .code => 67
  | .message => 77
  | .detail => 68
  | .hint => 72
  | .file => 70
  | .line => 76

theorem FieldTag.byte_ne_zero (tag : FieldTag) : tag.byte ≠ 0 := by
  cases tag <;> decide

/-- What `snprintf` returns: the size of the text, or -1 if that is not an `int`. -/
def snprintfReturn (text : List UInt8) : Int := if text.length < 2 ^ 31 then text.length else -1

/-- One field: `thislen + 1` bytes of `msgbuf`, and what is behind it if these are more than it has. -/
def part (memory : Nat → UInt8) (tag : FieldTag) (string : CText) : List UInt8 :=
  let text := tag.byte :: string.bytes
  let thislen := min (snprintfReturn text) maxMsgBuf
  ((⟨maxMsgBuf, memory⟩ : Buffer).write 0 (text.take (maxMsgBuf - 1) ++ [0])).read 0 (thislen + 1).toNat

theorem ne_zero_of_sprintfLd {n : Int} : ∀ b ∈ sprintfLd n, b ≠ 0 := by
  have htext : ∀ k, ∀ b ∈ (NumLiteral.ofNat k).text, b ≠ 0 := by
    intro k b hb
    have hdigit : ∀ d, digitByte d ≠ 0 := by decide
    obtain ⟨d, -, rfl⟩ : ∃ d ∈ NumLiteral.decimal k, digitByte d = b := by
      simpa [NumLiteral.text, NumLiteral.ofNat, NumLiteral.fracText, NumLiteral.expText] using hb
    exact hdigit d
  unfold sprintfLd
  split
  · intro b hb
    rcases List.mem_cons.mp hb with rfl | hb
    · decide
    · exact htext _ b hb
  · exact htext _

/-- The arguments of `pool_send_severity_message`. -/
structure SeverityMessage where
  severity : Severity
  code : CText
  message : CText
  detail : CText
  hint : CText
  file : CText
  line : BitVec 32

namespace SeverityMessage

variable (m : SeverityMessage)

def lineText : CText := ⟨sprintfLd m.line.toInt, fun h => ne_zero_of_sprintfLd 0 h rfl⟩

/-- The fields in front of the line: an empty detail and an empty hint have none. -/
def texts : List (FieldTag × CText) :=
  [(.severity, m.severity.text), (.code, m.code), (.message, m.message)] ++
    (if m.detail.bytes = [] then [] else [(.detail, m.detail)]) ++
    (if m.hint.bytes = [] then [] else [(.hint, m.hint)]) ++ [(.file, m.file)]

def fields : List (FieldTag × CText) := m.texts ++ [(.line, m.lineText)]

/-- `data`.  For each field it is not known what the memory holds. -/
def data (memory : FieldTag → Nat → UInt8) : List UInt8 :=
  (m.fields.flatMap fun f => part (memory f.1) f.1 f.2) ++ [0]

/-- `pool_send_severity_message`: the bytes that are written. -/
def poolSendSeverityMessage (memory : FieldTag → Nat → UInt8) (protoMajor : Int) : List UInt8 :=
  if protoMajor = 2 then 69 :: (m.message.bytes ++ [0])
  else if protoMajor = 3 then
    69 :: (htonl ((m.data memory).length + 4) ++ m.data memory)
  else []

end SeverityMessage

/-! ## What is read from it -/

/-- The fields of an error message: for each a tag and a string, and one zero byte behind the last. -/
inductive ErrorFields : List UInt8 → List (UInt8 × List UInt8) → Prop
  | terminator : ErrorFields [0] []
  | field {tag : UInt8} {value rest : List UInt8} {fields : List (UInt8 × List UInt8)} (htag : tag ≠ 0)
      (hvalue : 0 ∉ value) (hrest : ErrorFields rest fields) :
      ErrorFields (tag :: (value ++ 0 :: rest)) ((tag, value) :: fields)

/-- What is read for a field is its text, as far as there was room for it. -/
structure Shows (read : UInt8 × List UInt8) (field : FieldTag × CText) : Prop where
  tag : read.1 = field.1.byte
  value : read.2 <+: field.2.bytes
  fits : read.2.length ≤ maxMsgBuf

/-- The bytes are a message of V3 with these fields. -/
def Encodes (m : SeverityMessage) (out : List UInt8) : Prop :=
  ∃ word data fields, out = 69 :: (word ++ data) ∧ word.length = 4 ∧
    ntohl word = (word ++ data).length ∧ ErrorFields data fields ∧ List.Forall₂ Shows fields m.fields

/-- There is room for the text beside its tag and the zero byte. -/
def CText.Short (s : CText) : Prop := s.bytes.length < 255

instance (s : CText) : Decidable s.Short := Nat.decLt _ _

/-! ## One part -/

section

variable {memory : Nat → UInt8} {tag : FieldTag} {s : CText}

theorem length_part_le : (part memory tag s).length ≤ maxMsgBuf + 1 := by
  unfold part
  simp only [Buffer.length_read]
  omega

theorem part_short (h : s.Short) : part memory tag s = tag.byte :: (s.bytes ++ [0]) := by
  have hlen : (tag.byte :: s.bytes).length ≤ maxMsgBuf - 1 := h
  have hreturn : min (snprintfReturn (tag.byte :: s.bytes)) maxMsgBuf = (s.bytes.length + 1 : Nat) := by
    have hint : (tag.byte :: s.bytes).length < 2 ^ 31 := Nat.lt_of_le_of_lt hlen (by decide)
    have hmin : s.bytes.length + 1 ≤ maxMsgBuf := Nat.le_trans hlen (by decide)
    rw [snprintfReturn, if_pos hint, List.length_cons]
    exact min_eq_left (Int.ofNat_le.mpr hmin)
  have hsize : ((s.bytes.length + 1 : Nat) + 1 : Int).toNat = ((tag.byte :: s.bytes) ++ [0]).length := by
    simp only [List.length_append, List.length_cons, List.length_nil]
    omega
  unfold part
  simp only [hreturn, List.take_of_length_le hlen, hsize]
  exact Buffer.read_write

/-- The byte behind `msgbuf` is copied too. -/
theorem part_long (memory : Nat → UInt8) (tag : FieldTag) (h : ¬ s.Short)
    (hint : s.bytes.length + 1 < 2 ^ 31) :
    ∃ stray, part memory tag s = tag.byte :: (s.bytes.take 254 ++ [0, stray]) := by
  have hlong : maxMsgBuf ≤ s.bytes.length + 1 := Nat.succ_le_succ (Nat.le_of_not_lt h)
  have hreturn : min (snprintfReturn (tag.byte :: s.bytes)) maxMsgBuf = maxMsgBuf := by
    rw [snprintfReturn, List.length_cons, if_pos hint]
    exact min_eq_right (Int.ofNat_le.mpr hlong)
  have hsize : ((maxMsgBuf : Int) + 1).toNat = maxMsgBuf + 1 := rfl
  have hlen : ((tag.byte :: s.bytes).take (maxMsgBuf - 1) ++ [0]).length = maxMsgBuf := by
    rw [List.length_append, List.length_take, List.length_cons, List.length_singleton]
    unfold maxMsgBuf at hlong ⊢
    omega
  let msgbuf := (⟨maxMsgBuf, memory⟩ : Buffer).write 0 ((tag.byte :: s.bytes).take (maxMsgBuf - 1) ++ [0])
  have hread : msgbuf.read 0 maxMsgBuf = (tag.byte :: s.bytes).take (maxMsgBuf - 1) ++ [0] := by
    have hwritten := @Buffer.read_write ⟨maxMsgBuf, memory⟩
      ((tag.byte :: s.bytes).take (maxMsgBuf - 1) ++ [0]) 0
    rwa [hlen] at hwritten
  refine ⟨msgbuf.byteAt maxMsgBuf, ?_⟩
  calc part memory tag s
      = msgbuf.read 0 (maxMsgBuf + 1) := by
        unfold part
        simp only [hreturn, hsize]
        rfl
    _ = ((tag.byte :: s.bytes).take (maxMsgBuf - 1) ++ [0]) ++ [msgbuf.byteAt maxMsgBuf] := by
        rw [Buffer.read_add, hread]
        rfl
    _ = tag.byte :: (s.bytes.take 254 ++ [0, msgbuf.byteAt maxMsgBuf]) := by
        rw [List.append_assoc]
        rfl

/-- A text whose size is no `int` leaves nothing. -/
theorem part_huge (hint : ¬ s.bytes.length + 1 < 2 ^ 31) : part memory tag s = [] := by
  unfold part snprintfReturn
  simp only [List.length_cons, if_neg hint]
  rfl

end

/-! ## Reading what has been written -/

theorem fields_cons {tag : UInt8} {value rest : List UInt8} {read : List (UInt8 × List UInt8)}
    (hvalue : 0 ∉ value) (h : ErrorFields (tag :: (value ++ 0 :: rest)) read) :
    ∃ read', read = (tag, value) :: read' ∧ ErrorFields rest read' := by
  generalize hbytes : tag :: (value ++ 0 :: rest) = bytes at h
  cases h with
  | terminator => simp at hbytes
  | @field tag' value' rest' read' htag hvalue' hrest =>
    obtain ⟨rfl, htail⟩ := List.cons_eq_cons.mp hbytes
    have hupTo := Reader.upTo_append hvalue rest
    rw [htail, Reader.upTo_append hvalue' rest'] at hupTo
    cases hupTo
    exact ⟨read', rfl, hrest⟩

theorem fields_terminator {read : List (UInt8 × List UInt8)} (h : ErrorFields [0] read) : read = [] := by
  generalize hbytes : ([0] : List UInt8) = bytes at h
  cases h with
  | terminator => rfl
  | field htag hvalue hrest => simp at hbytes

/-- One byte at most may be in front of a text. -/
theorem fields_front {front value rest : List UInt8} {tag : UInt8} {read : List (UInt8 × List UInt8)}
    (hfront : front.length ≤ 1) (htag : tag ≠ 0) (hvalue : 0 ∉ value)
    (h : ErrorFields (front ++ tag :: (value ++ 0 :: rest)) read) :
    ∃ head read', read = head :: read' ∧ ErrorFields rest read' ∧ (front ≠ [] → head.2 = tag :: value) := by
  match front, hfront with
  | [], _ =>
    obtain ⟨read', heq, hrest⟩ := fields_cons hvalue h
    exact ⟨_, read', heq, hrest, fun hne => absurd rfl hne⟩
  | [stray], _ =>
    have hboth : 0 ∉ tag :: value := by
      rw [List.mem_cons, not_or]
      exact ⟨htag.symm, hvalue⟩
    obtain ⟨read', heq, hrest⟩ := fields_cons hboth h
    exact ⟨_, read', heq, hrest, fun _ => rfl⟩

theorem take_noNul (s : CText) (n : Nat) : 0 ∉ s.bytes.take n := fun h => s.noNul (List.mem_of_mem_take h)

/-- The bytes of some fields, of a last field whose text is short, and the zero byte. -/
def packed (memory : FieldTag → Nat → UInt8) (fields : List (FieldTag × CText)) (last : FieldTag × CText) :
    List UInt8 :=
  (fields.flatMap fun f => part (memory f.1) f.1 f.2) ++ last.1.byte :: (last.2.bytes ++ [0, 0])

section

variable {memory : FieldTag → Nat → UInt8} {fields : List (FieldTag × CText)} {last : FieldTag × CText}
  {read : List (UInt8 × List UInt8)} {front : List UInt8}

theorem packed_cons (f : FieldTag × CText) :
    packed memory (f :: fields) last = part (memory f.1) f.1 f.2 ++ packed memory fields last := by
  unfold packed
  rw [List.flatMap_cons, List.append_assoc]

/-- A part is read as a field, with one byte at most that is left in front of the next; or it is empty,
which it is not if the text is short. -/
theorem packed_step {f : FieldTag × CText} (hfront : front.length ≤ 1)
    (h : ErrorFields (front ++ packed memory (f :: fields) last) read) :
    (∃ head read' front', read = head :: read' ∧ front'.length ≤ 1 ∧
        ErrorFields (front' ++ packed memory fields last) read' ∧ (front' = [] → f.2.Short) ∧
        (f.2.Short → front ≠ [] → head.2 = f.1.byte :: f.2.bytes)) ∨
      ¬ f.2.Short ∧ ErrorFields (front ++ packed memory fields last) read := by
  rw [packed_cons] at h
  by_cases hshort : f.2.Short
  · rw [part_short hshort, List.cons_append, List.append_assoc] at h
    obtain ⟨head, read', heq, hrest, hhead⟩ := fields_front hfront f.1.byte_ne_zero f.2.noNul h
    exact .inl ⟨head, read', [], heq, Nat.zero_le _, hrest, fun _ => hshort, fun _ => hhead⟩
  · by_cases hint : f.2.bytes.length + 1 < 2 ^ 31
    · obtain ⟨stray, hpart⟩ := part_long (memory f.1) f.1 hshort hint
      rw [hpart, List.cons_append, List.append_assoc] at h
      obtain ⟨head, read', heq, hrest, -⟩ := fields_front hfront f.1.byte_ne_zero (take_noNul f.2 _) h
      exact .inl ⟨head, read', [stray], heq, Nat.le_refl _, hrest, nofun, fun h' => absurd h' hshort⟩
    · rw [part_huge hint] at h
      exact .inr ⟨hshort, h⟩

theorem packed_nil (hfront : front.length ≤ 1) (h : ErrorFields (front ++ packed memory [] last) read) :
    ∃ head, read = [head] ∧ (front ≠ [] → head.2 = last.1.byte :: last.2.bytes) := by
  obtain ⟨head, read', heq, hrest, hhead⟩ := fields_front hfront last.1.byte_ne_zero last.2.noNul h
  rw [fields_terminator hrest] at heq
  exact ⟨head, heq, hhead⟩

/-- There are never more fields than have been printed. -/
theorem length_le_of_packed (hfront : front.length ≤ 1)
    (h : ErrorFields (front ++ packed memory fields last) read) : read.length ≤ fields.length + 1 := by
  induction fields generalizing front read with
  | nil =>
    obtain ⟨head, rfl, -⟩ := packed_nil hfront h
    exact Nat.le_refl _
  | cons f fields ih =>
    obtain ⟨head, read', front', rfl, hfront', hrest, -⟩ | ⟨-, hrest⟩ := packed_step hfront h
    · exact Nat.succ_le_succ (ih hfront' hrest)
    · exact Nat.le_succ_of_le (ih hfront hrest)

/-- A text with a byte in front of it is no prefix of itself. -/
theorem not_prefix_cons (b : UInt8) (l : List UInt8) : ¬ (b :: l) <+: l := by
  intro h
  have hlen := h.length_le
  rw [List.length_cons] at hlen
  omega

/-- If what is read shows every field, no text has been cut off. -/
theorem short_of_shows (hfront : front.length ≤ 1)
    (h : ErrorFields (front ++ packed memory fields last) read)
    (hshows : List.Forall₂ Shows read (fields ++ [last])) : front = [] ∧ ∀ f ∈ fields, f.2.Short := by
  induction fields generalizing front read with
  | nil =>
    obtain ⟨head, rfl, hhead⟩ := packed_nil hfront h
    cases hshows with
    | cons hlast _ =>
      refine ⟨by_contra fun hne => ?_, nofun⟩
      have hvalue := hlast.value
      rw [hhead hne] at hvalue
      exact not_prefix_cons _ _ hvalue
  | cons f fields ih =>
    obtain ⟨head, read', front', rfl, hfront', hrest, hshort, hhead⟩ | ⟨-, hrest⟩ := packed_step hfront h
    · cases hshows with
      | cons hf hshows =>
        obtain ⟨hempty, hall⟩ := ih hfront' hrest hshows
        refine ⟨by_contra fun hne => ?_, List.forall_mem_cons.mpr ⟨hshort hempty, hall⟩⟩
        have hvalue := hf.value
        rw [hhead (hshort hempty) hne] at hvalue
        exact not_prefix_cons _ _ hvalue
    · -- a field is missing
      have hle := length_le_of_packed hfront hrest
      have hlen := hshows.length_eq
      rw [List.length_append, List.length_cons, List.length_singleton] at hlen
      omega

theorem fields_of_short (hshort : ∀ f ∈ fields, f.2.Short) :
    ErrorFields ((fields.flatMap fun f => part (memory f.1) f.1 f.2) ++ [0])
      (fields.map fun f => (f.1.byte, f.2.bytes)) := by
  induction fields with
  | nil => exact .terminator
  | cons f fields ih =>
    have hrest := ih fun g hg => hshort g (List.mem_cons_of_mem _ hg)
    rw [List.flatMap_cons, part_short (hshort f List.mem_cons_self), List.append_assoc, List.cons_append,
      List.append_assoc]
    exact .field f.1.byte_ne_zero f.2.noNul hrest

theorem shows_of_short (hshort : ∀ f ∈ fields, f.2.Short) :
    List.Forall₂ Shows (fields.map fun f => (f.1.byte, f.2.bytes)) fields := by
  rw [List.forall₂_map_left_iff, List.forall₂_same]
  exact fun f hf => ⟨rfl, List.prefix_refl _, Nat.le_trans (Nat.le_of_lt (hshort f hf)) (by decide)⟩

end

namespace SeverityMessage

variable {m : SeverityMessage} {memory : FieldTag → Nat → UInt8}

theorem length_sprintfLd {n : Int} (h : n.natAbs < 10 ^ 10) : (sprintfLd n).length ≤ 11 := by
  have hdigits : (NumLiteral.ofNat n.natAbs).text.length ≤ 10 := by
    have hlen := (Nat.digits_length_le_iff (by decide) n.natAbs).mpr h
    simp only [NumLiteral.text, NumLiteral.ofNat, NumLiteral.fracText, NumLiteral.expText,
      NumLiteral.decimal, List.length_append, List.length_map, List.length_nil]
    split
    · decide
    · simpa using hlen
  unfold sprintfLd
  split
  · exact Nat.succ_le_succ hdigits
  · exact Nat.le_succ_of_le hdigits

theorem short_lineText : m.lineText.Short := by
  have hsmall : m.line.toInt.natAbs < 10 ^ 10 := by
    have hlow := m.line.le_toInt
    have hhigh := m.line.toInt_lt
    omega
  exact Nat.lt_of_le_of_lt (length_sprintfLd hsmall) (by decide)

/-- The texts whose size the callers choose. -/
def Fits (m : SeverityMessage) : Prop :=
  m.code.Short ∧ m.message.Short ∧ m.detail.Short ∧ m.hint.Short ∧ m.file.Short

theorem fits_iff : m.Fits ↔ ∀ f ∈ m.texts, f.2.Short := by
  have hseverity : m.severity.text.Short := by cases m.severity <;> decide
  have hempty : ∀ {s : CText}, s.bytes = [] → s.Short := by
    intro s h
    unfold CText.Short
    rw [h]
    decide
  unfold Fits texts
  by_cases hdetail : m.detail.bytes = [] <;> by_cases hhint : m.hint.bytes = [] <;>
    simp [hdetail, hhint, hseverity, hempty]

theorem data_eq : m.data memory = packed memory m.texts (.line, m.lineText) := by
  unfold data packed fields
  rw [List.flatMap_append, List.append_assoc, List.flatMap_singleton, part_short short_lineText]
  simp

/-- The fields fit into `data`. -/
theorem length_data_le : (m.data memory).length ≤ maxData := by
  have hparts : ∀ fields : List (FieldTag × CText),
      (fields.flatMap fun f => part (memory f.1) f.1 f.2).length ≤ fields.length * (maxMsgBuf + 1) := by
    intro fields
    induction fields with
    | nil => exact Nat.zero_le _
    | cons f fields ih =>
      have hpart := @length_part_le (memory f.1) f.1 f.2
      rw [List.flatMap_cons, List.length_append, List.length_cons, Nat.succ_mul]
      omega
  have hcount : m.fields.length ≤ 7 := by
    unfold fields texts
    by_cases hdetail : m.detail.bytes = [] <;> by_cases hhint : m.hint.bytes = [] <;> simp [hdetail, hhint]
  have hdata := hparts m.fields
  have hbound := Nat.mul_le_mul_right (maxMsgBuf + 1) hcount
  unfold data maxData
  rw [List.length_append, List.length_singleton]
  omega

theorem fits_of_encodes (h : Encodes m (m.poolSendSeverityMessage memory 3)) : m.Fits := by
  obtain ⟨word, data, read, hout, hword, -, hfields, hshows⟩ := h
  have hdata : data = m.data memory := by
    have htail := (List.cons_eq_cons.mp hout).2
    exact (List.append_inj_right htail (by rw [length_htonl, hword])).symm
  rw [hdata, data_eq] at hfields
  exact fits_iff.mpr (@short_of_shows _ _ _ _ [] (Nat.zero_le 1) hfields hshows).2

/-- **Error messages**: what is written decodes to the fields exactly if no text is longer than `msgbuf` has
room for. -/
theorem encodes_iff (memory : FieldTag → Nat → UInt8) (m : SeverityMessage) :
    Encodes m (m.poolSendSeverityMessage memory 3) ↔ m.Fits := by
  refine ⟨fits_of_encodes, fun hfits => ?_⟩
  have hshort : ∀ f ∈ m.fields, f.2.Short := by
    intro f hf
    rcases List.mem_append.mp hf with hf | hf
    · exact fits_iff.mp hfits f hf
    · rw [List.mem_singleton.mp hf]
      exact short_lineText
  have hlen : (m.data memory).length + 4 < 2 ^ 32 :=
    Nat.lt_of_le_of_lt (Nat.add_le_add_right length_data_le 4) (by decide)
  refine ⟨_, m.data memory, _, rfl, length_htonl _, ?_, fields_of_short hshort, shows_of_short hshort⟩
  rw [ntohl_htonl hlen, List.length_append, length_htonl, Nat.add_comm]

/-- A message of 255 characters. -/
def tooLong : SeverityMessage where
  severity := .error
  code := ⟨[], nofun⟩
  message := ⟨List.replicate 255 97, fun h => absurd (List.eq_of_mem_replicate h) (by decide)⟩
  detail := ⟨[], nofun⟩
  hint := ⟨[], nofun⟩
  file := ⟨[], nofun⟩
  line := 0

/-- Of a message of 255 characters the last zero byte is not the last that is copied. -/
theorem not_encodes_tooLong : ¬ Encodes tooLong (tooLong.poolSendSeverityMessage (fun _ _ => 0) 3) := by
  intro h
  have hshort := (fits_of_encodes h).2.1
  have hlen : tooLong.message.bytes.length = 255 := List.length_replicate
  exact Nat.lt_irrefl 255 (Nat.lt_of_le_of_lt (Nat.le_of_eq hlen.symm) hshort)

end SeverityMessage

end PgPool
