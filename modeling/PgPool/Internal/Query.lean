import Mathlib.Data.List.Flatten
import PgPool.Lib.Reader
import PgPool.Session.Context
import PgPool.Stream.Words

/-!
# Queries of pgpool's own

`do_query` for both protocols: a SELECT is sent to a node, and the rows of the reply are gathered in
arrays.  The connection is the list of the bytes that come; reading takes them from its front, and what
is put back stands there again.
-/

namespace PgPool.Internal

open Words

/-! ## The source -/

/-- `AttrInfo`.  Only protocol V3 has the numbers of the table and the column. -/
structure AttrInfo where
  attrname : List UInt8
  oid : Option (Nat × Nat)
  typeoid : Nat
  size : Nat
  mod : Nat
  deriving DecidableEq

/-- An element of `data`: a null pointer, a string, or memory that has not been initialised. -/
inductive Cell where
  | null
  | string (value : List UInt8)
  | unset
  deriving DecidableEq

/-- `num_fields` and the `POOL_SELECT_RESULT`; its arrays have as many elements as have been assigned. -/
structure QueryState where
  numFields : Int
  numrows : Nat
  attrinfo : List AttrInfo
  nullflags : List Int
  data : List Cell

def QueryState.init : QueryState := ⟨0, 0, [], [], []⟩

/-- What an element of `data` is before it is assigned.  Only the first 1024 have been cleared. -/
def initialCell (numData : Nat) : Cell := if numData < 1024 then .null else .unset

/-- A flag is kept, and a string if there is one. -/
def QueryState.push (st : QueryState) (field : Int × Option (List UInt8)) : QueryState :=
  { st with
    nullflags := st.nullflags ++ [field.1]
    data := st.data ++
      [match field.2 with | some value => .string value | none => initialCell st.data.length] }

/-- A length, and as many bytes if it is positive. -/
def readSized (size : List UInt8 → Int) (tape : List UInt8) :
    Option ((Int × Option (List UInt8)) × List UInt8) := do
  let (word, tape) ← Reader.take 4 tape
  if 0 < size word then
    let (value, tape) ← Reader.take (size word).toNat tape
    some ((size word, some value), tape)
  else some ((size word, none), tape)

/-- The length word of a field in protocol V3. -/
def fieldSize3 (word : List UInt8) : Int := int32 (ntohl word)

/-- In protocol V2 it counts itself. -/
def fieldSize2 (word : List UInt8) : Int := int32 (ntohl word) - 4

/-- The description of a column in protocol V3. -/
def readColumn3 (p : List UInt8) : Option (AttrInfo × List UInt8) := do
  let (name, p) ← Reader.upTo 0 p
  let (oid, p) ← Reader.take 4 p
  let (attrnumber, p) ← Reader.take 2 p
  let (typeoid, p) ← Reader.take 4 p
  let (size, p) ← Reader.take 2 p
  let (mod, p) ← Reader.take 4 p
  -- the format code is skipped
  let (_, p) ← Reader.take 2 p
  some (⟨name, some (ntohl oid, ntohs attrnumber), ntohl typeoid, ntohs size, ntohl mod⟩, p)

/-- The one in protocol V2. -/
def readColumn2 (tape : List UInt8) : Option (AttrInfo × List UInt8) := do
  let (name, tape) ← Reader.upTo 0 tape
  let (typeoid, tape) ← Reader.take 4 tape
  let (size, tape) ← Reader.take 2 tape
  let (mod, tape) ← Reader.take 4 tape
  some (⟨name, none, ntohl typeoid, ntohs size, ntohl mod⟩, tape)

/-- The bit of a field in `nullmap`. -/
def nullBit (nullmap : List UInt8) (i : Nat) : Bool :=
  (nullmap.getD (i / 8) 0).toNat / 2 ^ (7 - i % 8) % 2 = 1

/-- The fields of a row in protocol V2, from the `i`-th one on. -/
def readFields2 (nullmap : List UInt8) : Nat → Nat → List UInt8 →
    Option (List (Int × Option (List UInt8)) × List UInt8)
  | _, 0, tape => some ([], tape)
  | i, n + 1, tape => do
    let (field, tape) ← if nullBit nullmap i then readSized fieldSize2 tape else some ((-1, none), tape)
    let (fields, tape) ← readFields2 nullmap (i + 1) n tape
    some (field :: fields, tape)

def QueryState.describe (st : QueryState) (numFields : Int) (attrinfo : List AttrInfo) : QueryState :=
  { st with numFields, attrinfo }

def QueryState.addRow (st : QueryState) (fields : List (Int × Option (List UInt8))) : QueryState :=
  fields.foldl QueryState.push { st with numrows := st.numrows + 1 }

/-- The switch for a packet of protocol V3. -/
def handle3 (kind : UInt8) (packet : List UInt8) (st : QueryState) : Option QueryState :=
  if kind = 84 then do
    let (word, p) ← Reader.take 2 packet
    if 0 < int16 word then
      let (columns, _) ← Reader.many readColumn3 (int16 word).toNat p
      some (st.describe (int16 word) columns)
    else some (st.describe (int16 word) st.attrinfo)
  else if kind = 68 then do
    let (word, p) ← Reader.take 2 packet
    let st := { st with numFields := int16 word }
    if 0 < int16 word then
      let (fields, _) ← Reader.many (readSized fieldSize3) (int16 word).toNat p
      some (st.addRow fields)
    else some st
  else some st

/-- The switch in protocol V2, where descriptions and rows are read from the connection. -/
def handle2 (kind : UInt8) (st : QueryState) (tape : List UInt8) : Option (QueryState × List UInt8) :=
  if kind = 84 then do
    let (word, tape) ← Reader.take 2 tape
    if 0 < int16 word then
      let (columns, tape) ← Reader.many readColumn2 (int16 word).toNat tape
      some (st.describe (int16 word) columns, tape)
    else some (st.describe (int16 word) st.attrinfo, tape)
  else if kind = 68 then
    if 0 < st.numFields then do
      let (nullmap, tape) ← Reader.take ((st.numFields.toNat + 7) / 8) tape
      let (fields, tape) ← readFields2 nullmap 0 st.numFields.toNat tape
      some (st.addRow fields, tape)
    else some (st, tape)
  else some (st, tape)

/-- A packet of protocol V3. -/
def readPacket3 (tape : List UInt8) : Option (List UInt8 × List UInt8) := do
  let (word, tape) ← Reader.take 4 tape
  let len ← contentsSize word
  Reader.take len tape

/-- `pool_extract_error_message` after the kind.  A packet that is too long is not put back, and the text
that is then logged is none; a string of protocol V2 is cut to the size of the buffer. -/
def extractErrorMessage (major : Proto) (tape : List UInt8) : Option (List UInt8) :=
  match major with
  | .v3 => do
    let (packet, _) ← readPacket3 tape
    if peekBufSz ≤ 4 + packet.length then none else some tape
  | .v2 => do
    let (string, rest) ← Reader.upTo 0 tape
    some ((string ++ [0]).take (peekBufSz - 1) ++ rest)

/-- The string that some messages of protocol V2 have. -/
def skipString2 (kind : UInt8) (tape : List UInt8) : Option (List UInt8) :=
  if kind = 67 ∨ kind = 69 ∨ kind = 78 ∨ kind = 80 then (Reader.upTo 0 tape).map Prod.snd else some tape

/-- A message after its kind. -/
def handleMessage (major : Proto) (kind : UInt8) (st : QueryState) (tape : List UInt8) :
    Option (QueryState × List UInt8) :=
  match major with
  | .v3 => do
    let (packet, tape) ← readPacket3 tape
    let st ← handle3 kind packet st
    some (st, tape)
  | .v2 => do
    let tape ← skipString2 kind tape
    handle2 kind st tape

/-- One round of the loop after the kind. -/
def queryRound (major : Proto) (kind : UInt8) (st : QueryState) (tape : List UInt8) :
    Option (QueryState × List UInt8) :=
  if kind = 69 then do
    let tape ← extractErrorMessage major tape
    handleMessage major kind st tape
  else handleMessage major kind st tape

/-- The loop, to ReadyForQuery.  `none`: it fails, or waits for what does not come.  Every round takes
some bytes. -/
def queryLoop (major : Proto) : Nat → QueryState → List UInt8 → Option (QueryState × List UInt8)
  | 0, _, _ => none
  | _ + 1, _, [] => none
  | fuel + 1, st, kind :: tape => do
    let (st, tape) ← queryRound major kind st tape
    if kind = 90 then some (st, tape) else queryLoop major fuel st tape

/-- `do_query` after the query has been sent: the result, and what is left on the connection. -/
def doQuery (major : Proto) (tape : List UInt8) : Option (QueryState × List UInt8) :=
  queryLoop major (tape.length + 1) QueryState.init tape

end PgPool.Internal
