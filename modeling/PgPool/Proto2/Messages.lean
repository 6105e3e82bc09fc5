import PgPool.Proto2.Reads

/-!
# Messages of protocol V2

What the nodes send, and for which messages a handler reads each node's own and forwards the
master's.
-/

namespace PgPool.Proto2

/-! ## Null maps -/

/-- The bit of a field. -/
def isSet (map : List UInt8) (i : Nat) : Prop :=
  (0x80 >>> UInt8.ofNat (i % 8)) &&& map.getD (i / 8) 0 ≠ 0

instance (map : List UInt8) (i : Nat) : Decidable (isSet map i) :=
  inferInstanceAs (Decidable (_ ≠ _))

/-- The number of the bits that are set among `k` fields from `i` on. -/
def nonNull (map : List UInt8) : Nat → Nat → Nat
  | 0, _ => 0
  | k + 1, i => (if isSet map i then 1 else 0) + nonNull map k (i + 1)

/-- The number of the fields that `BinaryRow` finds, whose mask stays where it is at a null field. -/
def binaryCount (map : List UInt8) : Nat → Nat → UInt8 → Nat
  | 0, _, _ => 0
  | k + 1, i, mask =>
    if renewed mask &&& map.getD (i / 8) 0 ≠ 0 then 1 + binaryCount map k (i + 1) (renewed mask >>> 1)
    else binaryCount map k (i + 1) (renewed mask)

/-! ## The messages -/

/-- What the handlers and the protocol may differ in: by how much the size of a binary value exceeds
the value, and whether the unused byte also follows an empty function result. -/
structure Format where
  binaryExtra : Nat
  unusedAfterEmpty : Bool

/-- A field of a row description. -/
structure Field where
  name : List UInt8
  oid : UInt32
  size : UInt16
  modifier : UInt32

/-- The two bytes of a `short`. -/
def htons (n : Nat) : List UInt8 := [UInt8.ofNat (n / 2 ^ 8), UInt8.ofNat n]

def Field.bytes (f : Field) : List UInt8 :=
  f.name ++ [0] ++ (htonl f.oid.toNat ++ (htons f.size.toNat ++ htonl f.modifier.toNat))

/-- A message of a node. -/
inductive Message where
  | rowDescription (fields : List Field)
  | asciiRow (map : List UInt8) (values : List (List UInt8))
  | binaryRow (map : List UInt8) (values : List (List UInt8))
  | completedResponse (tag : List UInt8)
  | cursorResponse (name : List UInt8)
  | emptyQueryResponse
  | errorResponse (text : List UInt8)
  | noticeResponse (text : List UInt8)
  | notificationResponse (pid : UInt32) (condition : List UInt8)
  | functionResult (value : Option (List UInt8))

/-- A value with its size, which exceeds the length by `extra`. -/
def sized (extra : Nat) (value : List UInt8) : List UInt8 := htonl (value.length + extra) ++ value

namespace Message

def kind : Message → UInt8
  | rowDescription _ => 0x54
  | asciiRow _ _ => 0x44
  | binaryRow _ _ => 0x42
  | completedResponse _ => 0x43
  | cursorResponse _ => 0x50
  | emptyQueryResponse => 0x49
  | errorResponse _ => 0x45
  | noticeResponse _ => 0x4e
  | notificationResponse _ _ => 0x41
  | functionResult _ => 0x56

/-- What follows the kind. -/
def body (fmt : Format) : Message → List UInt8
  | rowDescription fields => htons fields.length ++ fields.flatMap Field.bytes
  | asciiRow map values => map ++ values.flatMap (sized 4)
  | binaryRow map values => map ++ values.flatMap (sized fmt.binaryExtra)
  | completedResponse text | cursorResponse text | errorResponse text | noticeResponse text =>
      text ++ [0]
  | emptyQueryResponse => [0]
  | notificationResponse pid condition => htonl pid.toNat ++ (condition ++ [0])
  | functionResult none => 0x30 :: if fmt.unusedAfterEmpty then [0x30] else []
  | functionResult (some value) => 0x47 :: (sized 0 value ++ [0x30])

def bytes (fmt : Format) (m : Message) : List UInt8 := m.kind :: m.body fmt

/-- The fields of a row that are not null. -/
def values : Message → List (List UInt8)
  | asciiRow _ values | binaryRow _ values => values
  | _ => []

/-- The null map of a row. -/
def map : Message → List UInt8
  | asciiRow map _ | binaryRow map _ => map
  | _ => []

/-- The string of a message that is a string. -/
def text : Message → List UInt8
  | completedResponse text | cursorResponse text | errorResponse text | noticeResponse text => text
  | _ => []

/-- The number of fields after a message. -/
def nextFields (numFields : Nat) : Message → Nat
  | rowDescription fields => fields.length
  | _ => numFields

/-- A message is well formed: strings have no null byte, a row has the null map and the values that
go with its number of fields, and lengths are those of an `int` or `short`. -/
def WellFormed (numFields : Nat) : Message → Prop
  | rowDescription fields => fields.length < 2 ^ 15 ∧ ∀ f ∈ fields, 0 ∉ f.name
  | asciiRow map values | binaryRow map values =>
      map.length = mapLen numFields ∧ values.length = nonNull map numFields 0 ∧
        ∀ v ∈ values, v.length + 4 < 2 ^ 31
  | completedResponse text | cursorResponse text | errorResponse text | noticeResponse text => 0 ∉ text
  | emptyQueryResponse => True
  | notificationResponse _ condition => 0 ∉ condition
  | functionResult value => ∀ v ∈ value, v.length < 2 ^ 31

/-- The handlers tolerate that the master sends one message and another node the other: the kinds agree,
and so do the lengths that the handlers compare. -/
def Tolerates : Message → Message → Prop
  | rowDescription fs, rowDescription fs' =>
      fs.map (fun f => f.name.length) = fs'.map (fun f => f.name.length)
  | asciiRow _ _, asciiRow _ _ => True
  | binaryRow _ _, binaryRow _ _ => True
  | completedResponse t, completedResponse t' => t'.length = t.length ∨ t.take 6 = insertTag
  | cursorResponse t, cursorResponse t' => t'.length = t.length
  | emptyQueryResponse, emptyQueryResponse => True
  | errorResponse _, errorResponse _ => True
  | noticeResponse _, noticeResponse _ => True
  | notificationResponse _ _, notificationResponse _ _ => True
  | functionResult _, functionResult _ => True
  | _, _ => False

end Message

/-- The node whose null map is in the buffer when the fields of a row are read. -/
def Nodes.lastRead (nodes : Nodes) : Nat := nodes.others.getLast?.getD nodes.master

/-- The node whose string is forwarded by `ErrorResponse`. -/
def Nodes.lastValid (nodes : Nodes) : Nat := nodes.valid.getLast?.getD nodes.master

/-- The messages that do not meet the defects of their handlers, where `buf2` tells whether the
connection to the master has a buffer.
* A row of text: every node has as many values as the one whose null map is used.
* A binary row: there are no values; or there is one node, sizes count themselves, and the fields found
  are as many as there are.
* An error or a notice: the last node sends what the master sends.
* A function result: there is one valid node, and the result can be read as the handler reads it. -/
def Careful (nodes : Nodes) (fmt : Format) (buf2 : Bool) (numFields : Nat) (m : Nat → Message) : Prop :=
  match m nodes.master with
  | .asciiRow _ _ =>
      ∀ i ∈ nodes.valid, (m i).values.length = (m nodes.lastRead).values.length
  | .binaryRow map values =>
      (∀ i ∈ nodes.valid, (m i).values = []) ∨
        (fmt.binaryExtra = 4 ∧ nodes.numBackends = 1 ∧ binaryCount map numFields 0 0 = values.length)
  | .errorResponse text | .noticeResponse text => (m nodes.lastValid).text = text
  | .functionResult value =>
      nodes.valid = [nodes.master] ∧ (value = none → fmt.unusedAfterEmpty = true) ∧
        (value = some [] → buf2 = true)
  | _ => True

/-! ## Rows -/

variable {nodes : Nodes} {b : Bool} {fmt : Format} {numFields : Nat}

theorem valueLen_sized {v : List UInt8} (hv : v.length + 4 < 2 ^ 31) :
    valueLen (htonl (v.length + 4)) = v.length := by
  unfold valueLen
  rw [ntohl_htonl (by omega), if_pos hv]
  omega

theorem reads_asciiField {i : Nat} {v : List UInt8} (hi : i ∈ nodes.valid)
    (hv : v.length + 4 < 2 ^ 31) :
    Reads nodes b (asciiField i) (only i (sized 4 v)) [] (sized 4 v) := by
  refine Reads.congr (Reads.bind (reads_poolRead hi (length_htonl (v.length + 4)))
    (c := only i v) (p := []) ?_) ?_ rfl rfl
  · rw [valueLen_sized hv]
    by_cases hpos : 0 < v.length
    · rw [if_pos hpos]
      exact Reads.congr (Reads.bind (reads_poolRead2 hi rfl (.inl hpos)) (Reads.pure _))
        (fun _ _ => (List.append_nil _).symm) rfl rfl
    · rw [if_neg hpos]
      have hnil : v = [] := List.eq_nil_of_length_eq_zero (by omega)
      refine Reads.congr (Reads.pure _) ?_ rfl (by simp [sized, hnil])
      intro j _
      simp [only, hnil]
  · intro j _
    by_cases hji : j = i <;> simp [only, hji, sized]

theorem reads_asciiNodes {v : Nat → List UInt8} (hv : ∀ i ∈ nodes.valid, (v i).length + 4 < 2 ^ 31) :
    Reads nodes b (asciiNodes nodes) (fun i => sized 4 (v i)) (sized 4 (v nodes.master)) () := by
  refine reads_forward (w := fun i => sized 4 (v i))
    (reads_asciiField nodes.master_mem (hv _ nodes.master_mem)) ?_
  refine Reads.congr (Reads.bind (reads_poolWrite _) (Reads.bind (reads_each nodup_others
    (fun j hj _ => reads_asciiField (mem_others.mp hj).1 (hv j (mem_others.mp hj).1)) _)
    (Reads.pure ()))) ?_ (by simp) rfl
  intro j _
  simp

/-- The mask of `AsciiRow` stands at the bit of the field. -/
def AtBit (mask : UInt8) (i : Nat) : Prop := renewed mask = 0x80 >>> UInt8.ofNat (i % 8)

theorem AtBit.next {mask : UInt8} {i : Nat} (h : AtBit mask i) :
    AtBit (renewed mask >>> 1) (i + 1) := by
  unfold AtBit at *
  rw [h]
  have hstep : ∀ r < 8, renewed ((0x80 : UInt8) >>> UInt8.ofNat r >>> 1) =
      (0x80 : UInt8) >>> UInt8.ofNat (if r = 7 then 0 else r + 1) := by decide
  rw [hstep (i % 8) (Nat.mod_lt _ (by omega))]
  congr 2
  split <;> omega

theorem reads_asciiFields {map : List UInt8} {k i : Nat} {mask : UInt8} {vals : Nat → List (List UInt8)}
    (hmask : AtBit mask i) (hcount : ∀ j ∈ nodes.valid, (vals j).length = nonNull map k i)
    (hvals : ∀ j ∈ nodes.valid, ∀ v ∈ vals j, v.length + 4 < 2 ^ 31) :
    Reads nodes b (asciiFields nodes map k i mask) (fun j => (vals j).flatMap (sized 4))
      ((vals nodes.master).flatMap (sized 4)) () := by
  induction k generalizing i mask vals with
  | zero =>
    have hnil : ∀ j ∈ nodes.valid, vals j = [] := fun j hj => List.eq_nil_of_length_eq_zero (hcount j hj)
    refine Reads.congr (Reads.pure ()) ?_ (by rw [hnil _ nodes.master_mem]; rfl) rfl
    intro j hj
    rw [hnil j hj]
    rfl
  | succ k ih =>
    unfold asciiFields
    have hbit : renewed mask &&& map.getD (i / 8) 0 ≠ 0 ↔ isSet map i := by
      rw [show renewed mask = _ from hmask]
      rfl
    by_cases hset : isSet map i
    · rw [if_pos (hbit.mpr hset)]
      have hcons : ∀ j ∈ nodes.valid, ∃ v vs, vals j = v :: vs := by
        intro j hj
        have hlen := hcount j hj
        rw [nonNull, if_pos hset] at hlen
        exact List.exists_cons_of_length_pos (by omega)
      have hsplit : ∀ j ∈ nodes.valid, vals j = (vals j).headD [] :: (vals j).tail := by
        intro j hj
        obtain ⟨v, vs, hv⟩ := hcons j hj
        rw [hv]
        rfl
      have hhead := @reads_asciiNodes nodes b (fun j => (vals j).headD []) (fun j hj => hvals j hj _ (by
        rw [hsplit j hj]
        exact List.mem_cons_self))
      have htail := @ih (i + 1) _ (fun j => (vals j).tail) hmask.next
        (fun j hj => by
          rw [List.length_tail, hcount j hj, nonNull, if_pos hset]
          omega)
        (fun j hj v hv => hvals j hj v (List.mem_of_mem_tail hv))
      refine Reads.congr (Reads.bind hhead htail) ?_ ?_ rfl
      · intro j hj
        show (vals j).flatMap (sized 4) = _
        rw [hsplit j hj]
        rfl
      · rw [hsplit _ nodes.master_mem]
        rfl
    · rw [if_neg (fun h => hset (hbit.mp h))]
      refine ih hmask.next (fun j hj => ?_) hvals
      rw [hcount j hj, nonNull, if_neg hset, Nat.zero_add]

end PgPool.Proto2
