import PgPool.Stream.Message

/-!
# Relaying messages of protocol V2

The handlers of `pool_proto2.c`.  Messages of protocol V2 carry no length, so each handler reads the
copy of every node field by field.  A connection is here what it has to say: `pool_read` and its
relatives take bytes off the front.  A read for which the bytes do not come, an error status and a
null pointer end the computation.
-/

namespace PgPool.Proto2

/-- The nodes for which `VALID_BACKEND` holds, in ascending order, and `MASTER_NODE_ID`. -/
structure Nodes where
  numBackends : Nat
  valid : List Nat
  master : Nat
  nodup : valid.Nodup
  master_mem : master ∈ valid
  lt : ∀ i ∈ valid, i < numBackends

/-- The nodes that the loops visit besides the master. -/
def Nodes.others (nodes : Nodes) : List Nat := nodes.valid.filter (· ≠ nodes.master)

/-- The connections: what the nodes have to say, whether `pool_read2` has a buffer for a connection
yet, and what has been written to the frontend. -/
structure Relay where
  backends : Nat → List UInt8
  buf2 : Nat → Bool
  out : List UInt8

/-- A computation on the connections. -/
abbrev Act := StateT Relay Option

/-- `pool_write` to the frontend. -/
def poolWrite (bytes : List UInt8) : Act Unit := fun s => some ((), { s with out := s.out ++ bytes })

/-- `pool_read`. -/
def poolRead (i n : Nat) : Act (List UInt8) := fun s =>
  if (s.backends i).length < n then none
  else some ((s.backends i).take n,
    { s with backends := fun j => if j = i then (s.backends i).drop n else s.backends j })

/-- `pool_read2`: a null pointer as long as there is no buffer. -/
def poolRead2 (i n : Nat) : Act (List UInt8) := fun s =>
  if n = 0 ∧ s.buf2 i = false then none
  else poolRead i n { s with buf2 := fun j => if j = i then true else s.buf2 j }

/-- `pool_read_string`: up to a null byte, which is included. -/
def poolReadString (i : Nat) : Act (List UInt8) := fun s =>
  poolRead i ((s.backends i).takeWhile (· ≠ 0)).length.succ s

/-- A loop over nodes; what was read last is kept in a variable. -/
def each {β : Type} (act : Nat → β → Act β) : List Nat → β → Act β
  | [], last => pure last
  | i :: is, last => do each act is (← act i last)

/-! ## Rows -/

/-- `(num_fields + 7)/8`. -/
def mapLen (numFields : Nat) : Nat := (numFields + 7) / 8

/-- The size of an ASCII value: the word minus its own length, if that is positive. -/
def valueLen (word : List UInt8) : Nat := if ntohl word < 2 ^ 31 then ntohl word - 4 else 0

/-- A field of `AsciiRow` on one node. -/
def asciiField (i : Nat) : Act (List UInt8) := do
  let word ← poolRead i 4
  if 0 < valueLen word then do
    let value ← poolRead2 i (valueLen word)
    pure (word ++ value)
  else pure word

/-- A field of `AsciiRow`: that of the master is forwarded. -/
def asciiNodes (nodes : Nodes) : Act Unit := do
  let value ← asciiField nodes.master
  poolWrite value
  let _ ← each (fun j _ => asciiField j) nodes.others value
  pure ()

/-- The mask of a field: it starts again where it has run out. -/
def renewed (mask : UInt8) : UInt8 := if mask = 0 then 0x80 else mask

/-- The loop of `AsciiRow` over the fields, which goes by the null map it is given.  The mask walks
over the bits of a byte. -/
def asciiFields (nodes : Nodes) (map : List UInt8) : Nat → Nat → UInt8 → Act Unit
  | 0, _, _ => pure ()
  | k + 1, i, mask =>
    if renewed mask &&& map.getD (i / 8) 0 ≠ 0 then do
      asciiNodes nodes
      asciiFields nodes map k (i + 1) (renewed mask >>> 1)
    else asciiFields nodes map k (i + 1) (renewed mask >>> 1)

/-- `AsciiRow` after the kind and the test for fields. -/
def asciiRowBody (nodes : Nodes) (numFields : Nat) : Act Unit := do
  let nullmap1 ← poolRead nodes.master (mapLen numFields)
  let nullmap ← each (fun j _ => poolRead j (mapLen numFields)) nodes.others nullmap1
  poolWrite nullmap1
  asciiFields nodes nullmap numFields 0 0

/-- `AsciiRow`. -/
def asciiRow (nodes : Nodes) (numFields : Nat) : Act Unit := do
  poolWrite [0x44]
  if mapLen numFields ≤ 0 then pure () else asciiRowBody nodes numFields

/-- `pool_read` and `pool_read2` on a node that may have no connection. -/
def onConnection {β : Type} (nodes : Nodes) (i : Nat) (act : Act β) : Act β :=
  if i ∈ nodes.valid then act else StateT.lift none

/-- What is done for the master only. -/
def forMaster (nodes : Nodes) (j : Nat) (act : Act Unit) : Act Unit :=
  if j = nodes.master then act else pure ()

/-- The size of a field of `BinaryRow`, read again for a node that is not the master; the connection is
that of the node whose number is the number `i` of the field. -/
def binarySize (nodes : Nodes) (i j : Nat) (size : List UInt8) : Act (List UInt8) :=
  if j ∈ nodes.valid ∧ j ≠ nodes.master then onConnection nodes i (poolRead i 4) else pure size

/-- The value of a field of `BinaryRow` on a node, where `n` is the size minus four. -/
def binaryValue (nodes : Nodes) (j n : Nat) : Act Unit :=
  if 0 < n ∧ n < 2 ^ 31 then do
    let buf ← onConnection nodes j (poolRead2 j n)
    forMaster nodes j (poolWrite buf)
  else pure ()

/-- `ntohl(size) - 4`. -/
def binaryLen (size : List UInt8) : Nat := (ntohl size + 2 ^ 32 - 4) % 2 ^ 32

/-- The loop of `BinaryRow` over the nodes for the field `i`.  The variable `size` holds four bytes,
those of an `int` on a little-endian machine once four has been subtracted. -/
def binaryField (nodes : Nodes) (i : Nat) : List Nat → List UInt8 → Act Unit
  | [], _ => pure ()
  | j :: js, size => do
    let size ← binarySize nodes i j size
    forMaster nodes j (poolWrite size)
    binaryValue nodes j (binaryLen size)
    binaryField nodes i js (htonl (binaryLen size)).reverse

/-- The loop of `BinaryRow` over the fields.  The mask walks on only where a field is not null. -/
def binaryFields (nodes : Nodes) (map : List UInt8) : Nat → Nat → UInt8 → Act Unit
  | 0, _, _ => pure ()
  | k + 1, i, mask =>
    if renewed mask &&& map.getD (i / 8) 0 ≠ 0 then do
      let size ← poolRead nodes.master 4
      binaryField nodes i (List.range nodes.numBackends) size
      binaryFields nodes map k (i + 1) (renewed mask >>> 1)
    else binaryFields nodes map k (i + 1) (renewed mask)

/-- `BinaryRow` after the kind and the test for fields. -/
def binaryRowBody (nodes : Nodes) (numFields : Nat) : Act Unit := do
  let nullmap ← poolRead nodes.master (mapLen numFields)
  poolWrite nullmap
  let nullmap ← each (fun j _ => poolRead j (mapLen numFields)) nodes.others nullmap
  binaryFields nodes nullmap numFields 0 0

/-- `BinaryRow`. -/
def binaryRow (nodes : Nodes) (numFields : Nat) : Act Unit := do
  poolWrite [0x42]
  if mapLen numFields ≤ 0 then pure () else binaryRowBody nodes numFields

/-! ## Strings -/

/-- `INSERT`. -/
def insertTag : List UInt8 := [0x49, 0x4e, 0x53, 0x45, 0x52, 0x54]

/-- `CompletedResponse` and `CursorResponse`: the strings of the nodes must be as long as that of the
master, which is forwarded; `excused` says for which strings of the master they need not. -/
def sameLength (kind : UInt8) (excused : List UInt8 → Bool) (nodes : Nodes) : Act Unit := do
  let string1 ← poolReadString nodes.master
  let _ ← each (fun j _ => do
    let string ← poolReadString j
    if string.length ≠ string1.length ∧ excused string1 = false then StateT.lift none
    else pure string) nodes.others string1
  poolWrite (kind :: string1)

def completedResponse := sameLength 0x43 fun string => string.take 6 == insertTag

def cursorResponse := sameLength 0x50 fun _ => false

/-- `EmptyQueryResponse`. -/
def emptyQueryResponse (nodes : Nodes) : Act Unit := do
  let _ ← each (fun j _ => poolRead j 1) nodes.valid []
  poolWrite [0x49, 0]

/-- `ErrorResponse` and `NoticeResponse`: the string that is forwarded is the one read last. -/
def lastString (kind : UInt8) (nodes : Nodes) : Act Unit := do
  let string ← each (fun j _ => poolReadString j) nodes.valid []
  poolWrite (kind :: string)

def errorResponse := lastString 0x45

def noticeResponse := lastString 0x4e

/-- `NotificationResponse`. -/
def notificationResponse (nodes : Nodes) : Act Unit := do
  poolWrite [0x41]
  let kept ← each (fun j kept => do
    let pid ← poolRead j 4
    let condition ← poolReadString j
    pure (if j = nodes.master then pid ++ condition else kept)) nodes.valid []
  poolWrite kept

/-! ## Function results -/

/-- The value of a function result that has one, which is read from the master for each node. -/
def functionValue (nodes : Nodes) (dummy : List UInt8) : Act Unit :=
  if dummy = [0x47] then do
    let len ← each (fun j _ => poolRead j 4) nodes.valid []
    poolWrite len
    let result ← each (fun _ _ => poolRead2 nodes.master (ntohl len)) nodes.valid []
    poolWrite result
  else pure ()

/-- `FunctionResultResponse`.  The unused byte at the end, too, is read from the master for each
node. -/
def functionResultResponse (nodes : Nodes) : Act Unit := do
  poolWrite [0x56]
  let dummy ← each (fun j _ => poolRead j 1) nodes.valid []
  poolWrite dummy
  functionValue nodes dummy
  let _ ← each (fun _ _ => poolRead nodes.master 1) nodes.valid []
  poolWrite [0x30]

/-! ## Row descriptions -/

/-- What is read from the master is forwarded, and as much is read from each of the others. -/
def forwardFixed (nodes : Nodes) (n : Nat) : Act Unit := do
  let word ← poolRead nodes.master n
  let _ ← each (fun j _ => poolRead j n) nodes.others word
  poolWrite word

/-- The name of a field, whose length must be the same on all nodes. -/
def descriptionName (nodes : Nodes) : Act Unit := do
  let name ← poolReadString nodes.master
  poolWrite name
  let _ ← each (fun j _ => do
    let string ← poolReadString j
    if string.length ≠ name.length then StateT.lift none else pure string) nodes.others name
  pure ()

/-- A field of `RowDescription`: its name, its type, its size and its modifier. -/
def descriptionField (nodes : Nodes) : Act Unit := do
  descriptionName nodes
  forwardFixed nodes 4
  forwardFixed nodes 2
  forwardFixed nodes 4

def descriptionFields (nodes : Nodes) : Nat → Act Unit
  | 0 => pure ()
  | k + 1 => do
    descriptionField nodes
    descriptionFields nodes k

/-- The `short` that two bytes are, if it is not negative. -/
def ntohs (bytes : List UInt8) : Nat := if ntohl bytes < 2 ^ 15 then ntohl bytes else 0

/-- `RowDescription`, which returns the number of the fields. -/
def rowDescription (nodes : Nodes) : Act Nat := do
  let numFields1 ← poolRead nodes.master 2
  let numFields ← each (fun j _ => do
    let numFields ← poolRead j 2
    if numFields ≠ numFields1 then StateT.lift none else pure numFields) nodes.others numFields1
  poolWrite [0x54]
  poolWrite numFields
  descriptionFields nodes (ntohs numFields)
  pure (ntohs numFields)

/-! ## The loop -/

/-- The switch of `ProcessBackendResponse` for the messages of this file. -/
def dispatch (nodes : Nodes) (numFields : Nat) (kind : List UInt8) : Act Nat :=
  if kind = [0x41] then do notificationResponse nodes; pure numFields
  else if kind = [0x42] then do binaryRow nodes numFields; pure numFields
  else if kind = [0x43] then do completedResponse nodes; pure numFields
  else if kind = [0x44] then do asciiRow nodes numFields; pure numFields
  else if kind = [0x45] then do errorResponse nodes; pure numFields
  else if kind = [0x49] then do emptyQueryResponse nodes; pure numFields
  else if kind = [0x4e] then do noticeResponse nodes; pure numFields
  else if kind = [0x50] then do cursorResponse nodes; pure numFields
  else if kind = [0x54] then rowDescription nodes
  else if kind = [0x56] then do functionResultResponse nodes; pure numFields
  else StateT.lift none

/-- `ProcessBackendResponse`: the kind, which all nodes must send, and the handler.  The number of fields
goes from message to message. -/
def processBackendResponse (nodes : Nodes) (numFields : Nat) : Act Nat := do
  let kind1 ← poolRead nodes.master 1
  let kind ← each (fun j _ => do
    let kind ← poolRead j 1
    if kind ≠ kind1 then StateT.lift none else pure kind) nodes.others kind1
  dispatch nodes numFields kind

/-- Message after message. -/
def processAll (nodes : Nodes) : Nat → Nat → Act Nat
  | 0, numFields => pure numFields
  | k + 1, numFields => do
    let numFields ← processBackendResponse nodes numFields
    processAll nodes k numFields

end PgPool.Proto2
