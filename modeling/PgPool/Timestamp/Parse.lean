import PgPool.Timestamp.Bind

/-!
# Rewriting a Parse message

`Parse` puts a query in which the time has been rewritten into the message that it has got, between the
statement name and the types of the parameters, and sends the message to the backends.
-/

namespace PgPool.Parse

open Words PgPool.Bind

/-! ## Parse messages -/

/-- What a Parse message says. -/
structure ParseFields where
  stmtName : List UInt8
  query : List UInt8
  paramTypes : List UInt32
  deriving DecidableEq

/-- Texts without null characters, and a number of types that fits into its word. -/
structure ParseFields.WellFormed (m : ParseFields) : Prop where
  stmtName : 0 ∉ m.stmtName
  query : 0 ∉ m.query
  paramTypes : m.paramTypes.length < 2 ^ 16

def typeBytes (oid : UInt32) : List UInt8 := htonl oid.toNat

/-- The number of the types, and the types. -/
def typesBytes (paramTypes : List UInt32) : List UInt8 :=
  htons paramTypes.length ++ paramTypes.flatMap typeBytes

/-- The bytes of a message behind its length word. -/
def encode (m : ParseFields) : List UInt8 :=
  m.stmtName ++ 0 :: (m.query ++ 0 :: typesBytes m.paramTypes)

/-- A message that can arrive. -/
structure ParseMessage where
  fields : ParseFields
  wellFormed : fields.WellFormed
  fits : (encode fields).length + 4 < 2 ^ 31

/-- A query that has been rewritten. -/
structure RewrittenQuery where
  bytes : List UInt8
  noNull : 0 ∉ bytes

/-! ## Reading them -/

def readType (input : List UInt8) : Option (UInt32 × List UInt8) := do
  let (word, input) ← Reader.take 4 input
  some (UInt32.ofNat (ntohl word), input)

/-- How the backend reads what is behind the length word. -/
def decode (input : List UInt8) : Option ParseFields := do
  let (stmtName, input) ← Reader.upTo 0 input
  let (query, input) ← Reader.upTo 0 input
  let (paramTypes, input) ← readCounted readType input
  if input = [] then some ⟨stmtName, query, paramTypes⟩ else none

/-- How the backend reads a message, and what follows it. -/
def receive (input : List UInt8) : Option (ParseFields × List UInt8) := do
  let (kind, input) ← Reader.take 1 input
  if kind = [80] then
    let (word, input) ← Reader.take 4 input
    if 4 ≤ ntohl word ∧ ntohl word < 2 ^ 31 then
      let (contents, input) ← Reader.take (ntohl word - 4) input
      let m ← decode contents
      some (m, input)
    else none
  else none

theorem inverts_readType (oid : UInt32) : Reader.Inverts readType typeBytes oid := by
  intro rest
  have hlt : oid.toNat < 2 ^ 32 := oid.toNat_lt
  have htake := Reader.take_append (length_htonl oid.toNat) rest
  simp [readType, typeBytes, htake, ntohl_htonl hlt]

theorem length_typesBytes (paramTypes : List UInt32) :
    (typesBytes paramTypes).length = 2 + 4 * paramTypes.length := by
  unfold typesBytes
  rw [List.length_append, length_htons]
  congr 1
  induction paramTypes with
  | nil => rfl
  | cons oid oids ih =>
    rw [List.flatMap_cons, List.length_append, ih, List.length_cons]
    simp only [typeBytes, length_htonl]
    omega

theorem length_encode (m : ParseFields) :
    (encode m).length = m.stmtName.length + m.query.length + 2 + (typesBytes m.paramTypes).length := by
  simp only [encode, List.length_append, List.length_cons]
  omega

/-- Messages are read as they have been written. -/
theorem decode_encode {m : ParseFields} (h : m.WellFormed) : decode (encode m) = some m := by
  have htypes := readCounted_append (fun oid _ => inverts_readType oid) h.paramTypes []
  rw [List.append_nil] at htypes
  unfold decode encode
  rw [Reader.upTo_append h.stmtName]
  simp only [Option.bind_eq_bind, Option.bind_some]
  rw [Reader.upTo_append h.query]
  simp only [Option.bind_some]
  unfold typesBytes
  rw [htypes]
  rfl

/-! ## The source -/

/-- An `int` as an `unsigned int`. -/
def unsigned (n : Int) : Nat := (n % 2 ^ 32).toNat

/-- The branch of `Parse` for a query that has been rewritten: the new contents and `len`; `none`: what
is written goes beyond the block that `palloc` returns, whose size is an `unsigned int`. -/
def rewriteContents (rewriteQuery contents : List UInt8) (len : Int) :
    Option (List UInt8 × Int) := do
  let (name, rest) ← Reader.upTo 0 contents
  let (stmt, rest) ← Reader.upTo 0 rest
  let allocLen := int32 (len - stmt.length + rewriteQuery.length)
  let (tail, _) ← memcpy (len - (name.length + stmt.length + 2)) rest
  let contents := name ++ 0 :: (rewriteQuery ++ 0 :: tail)
  if contents.length ≤ unsigned allocLen then some (contents, allocLen) else none

/-- `pool_write` of the first `len` bytes.  Nothing is written if there is an error. -/
def written (string : List UInt8) (len : Int) : List UInt8 :=
  if len < 0 then [] else string.take len.toNat

/-- The Flush message that follows. -/
def flushMessage : List UInt8 := 72 :: htonl 4

/-- `send_extended_protocol_message`. -/
def sendExtendedProtocolMessage (kind : UInt8) (len : Int) (string : List UInt8) : List UInt8 :=
  kind :: (htonl (unsigned (len + 4)) ++ (written string len ++ flushMessage))

/-! ## What is claimed -/

/-- The message with the query in the place of its own. -/
def withQuery (m : ParseFields) (q : RewrittenQuery) : ParseFields := { m with query := q.bytes }

/-- What `Parse` sends is read as the message with the rewritten query, no more and no less, and `len`
is the number of its bytes. -/
def Exact (m : ParseMessage) (q : RewrittenQuery) : Prop :=
  ∃ contents : List UInt8,
    rewriteContents q.bytes (encode m.fields) (encode m.fields).length =
      some (contents, (contents.length : Int)) ∧
    receive (sendExtendedProtocolMessage 80 contents.length contents) =
      some (withQuery m.fields q, flushMessage)

variable {m : ParseMessage} {q : RewrittenQuery}

theorem unsigned_natCast {n : Nat} (h : n < 2 ^ 32) : unsigned n = n := by
  unfold unsigned
  omega

theorem wellFormed_withQuery {m : ParseFields} (h : m.WellFormed) (q : RewrittenQuery) :
    (withQuery m q).WellFormed :=
  ⟨h.stmtName, q.noNull, h.paramTypes⟩

/-- The new contents are those of the message with the query. -/
theorem rewriteContents_encode (m : ParseMessage) (q : RewrittenQuery) :
    rewriteContents q.bytes (encode m.fields) (encode m.fields).length =
      if (encode (withQuery m.fields q)).length ≤
          unsigned (int32 (encode (withQuery m.fields q)).length) then
        some (encode (withQuery m.fields q), int32 (encode (withQuery m.fields q)).length)
      else none := by
  obtain ⟨m, hwf, -⟩ := m
  change rewriteContents q.bytes (encode m) (encode m).length = _
  have hold := length_encode m
  have hnew : (encode (withQuery m q)).length = m.stmtName.length + q.bytes.length + 2 +
      (typesBytes m.paramTypes).length := length_encode (withQuery m q)
  have htail : memcpy ((encode m).length - (m.stmtName.length + m.query.length + 2 : Int))
      (typesBytes m.paramTypes) = some (typesBytes m.paramTypes, []) := by
    have hcopy : memcpy ((encode m).length - (m.stmtName.length + m.query.length + 2 : Int))
        (typesBytes m.paramTypes ++ []) = some (typesBytes m.paramTypes, []) :=
      memcpy_append (by omega) []
    rwa [List.append_nil] at hcopy
  have hlen : ((encode m).length - m.query.length + q.bytes.length : Int) =
      (encode (withQuery m q)).length := by
    omega
  have hcontents : m.stmtName ++ 0 :: (q.bytes ++ 0 :: typesBytes m.paramTypes) =
      encode (withQuery m q) := rfl
  generalize (encode m).length = total at htail hlen
  unfold rewriteContents
  rw [encode, Reader.upTo_append hwf.stmtName]
  simp only [Option.bind_eq_bind, Option.bind_some]
  rw [Reader.upTo_append hwf.query]
  simp only [Option.bind_some, htail, hlen, hcontents]

/-- A message whose length word can be told is received. -/
theorem receive_send {m : ParseFields} (h : m.WellFormed) (hfits : (encode m).length + 4 < 2 ^ 31) :
    receive (sendExtendedProtocolMessage 80 (encode m).length (encode m)) = some (m, flushMessage) := by
  have hword : unsigned ((encode m).length + 4) = (encode m).length + 4 :=
    unsigned_natCast (n := (encode m).length + 4) (by omega)
  have hsize : ntohl (htonl ((encode m).length + 4)) = (encode m).length + 4 := ntohl_htonl (by omega)
  have hall : written (encode m) (encode m).length = encode m := by
    unfold written
    rw [if_neg (by omega), Int.toNat_natCast, List.take_length]
  have hlength : [(80 : UInt8)].length = 1 := rfl
  have hkind := Reader.take_append hlength (htonl ((encode m).length + 4) ++ (encode m ++ flushMessage))
  unfold sendExtendedProtocolMessage receive
  rw [hword, hall]
  rw [List.singleton_append] at hkind
  rw [hkind]
  simp only [Option.bind_eq_bind, Option.bind_some, if_true]
  rw [Reader.take_append (length_htonl _)]
  simp only [Option.bind_some, hsize]
  rw [if_pos ⟨by omega, hfits⟩, Nat.add_sub_cancel, Reader.take_append rfl]
  simp only [Option.bind_some, decode_encode h]

/-- A length that the backend does not accept. -/
theorem receive_send_eq_none {len : Nat} (hlen : 2 ^ 31 ≤ len + 4) (hlt : len < 2 ^ 31)
    (contents : List UInt8) : receive (sendExtendedProtocolMessage 80 len contents) = none := by
  have hword : unsigned ((len : Int) + 4) = len + 4 := unsigned_natCast (n := len + 4) (by omega)
  have hsize : ntohl (htonl (len + 4)) = len + 4 := ntohl_htonl (by omega)
  have hlength : [(80 : UInt8)].length = 1 := rfl
  have hkind := Reader.take_append hlength (htonl (len + 4) ++ (written contents len ++ flushMessage))
  unfold sendExtendedProtocolMessage receive
  rw [hword]
  rw [List.singleton_append] at hkind
  rw [hkind]
  simp only [Option.bind_eq_bind, Option.bind_some, if_true]
  rw [Reader.take_append (length_htonl _)]
  simp only [Option.bind_some, hsize]
  exact if_neg (by omega)

theorem fits_of_exact (h : Exact m q) : (encode (withQuery m.fields q)).length + 4 < 2 ^ 31 := by
  obtain ⟨contents, hrewrite, hreceive⟩ := h
  rw [rewriteContents_encode] at hrewrite
  split at hrewrite
  · obtain ⟨rfl, hlen⟩ := Prod.mk.inj (Option.some.inj hrewrite)
    have hlt := int32_natCast_iff.mp hlen
    by_contra hmany
    rw [receive_send_eq_none (Nat.le_of_not_lt hmany) hlt] at hreceive
    cases hreceive
  · cases hrewrite

/-- The bytes of an ASCII text. -/
def ascii (text : String) : List UInt8 := text.toList.map fun c => UInt8.ofNat c.toNat

def currentQuery : List UInt8 := ascii "UPDATE t SET b = CURRENT_TIMESTAMP"

/-- A statement with a name of `n` bytes. -/
def longName (n : Nat) : ParseFields := ⟨List.replicate n 115, currentQuery, []⟩

theorem length_encode_longName (n : Nat) : (encode (longName n)).length = n + 38 := by
  rw [length_encode, length_typesBytes]
  unfold longName
  rw [List.length_replicate]
  rfl

def longNameMessage (n : Nat) (h : n + 42 < 2 ^ 31) : ParseMessage where
  fields := longName n
  wellFormed := {
    stmtName := fun hmem => absurd (List.eq_of_mem_replicate hmem) (by decide)
    query := (by decide : 0 ∉ currentQuery)
    paramTypes := Nat.two_pow_pos 16 }
  fits := by
    rw [length_encode_longName]
    omega

/-- The query as it is rewritten for a named statement. -/
def updateQuery : RewrittenQuery where
  bytes := ascii "UPDATE \"t\" SET \"b\" = \"pg_catalog\".\"timestamptz\"($1::text)"
  noNull := by decide

theorem length_encode_updateQuery (n : Nat) :
    (encode (withQuery (longName n) updateQuery)).length = n + 61 := by
  rw [length_encode, length_typesBytes]
  unfold withQuery longName
  rw [List.length_replicate]
  rfl

end PgPool.Parse
