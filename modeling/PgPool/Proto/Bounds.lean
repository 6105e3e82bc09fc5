import PgPool.Proto.LargeObject

/-!
# The bytes of a frontend message

What `ProcessFrontendResponse` and its handlers read of a message of protocol V3, and what becomes of
messages that are too short for what they say.
-/

namespace PgPool.Bounds

open PgPool.Words PgPool.Bind PgPool.LargeObject

/-! ## Messages -/

/-- A message: its kind, the length word less 4, and the body, which is not read for a length that is not
positive. -/
structure FrontendMessage where
  kind : Char
  len : Int
  contents : Option (List UInt8)

/-- The next message of a stream.  `none`: the stream ends in it. -/
def readMessage : List UInt8 → Option FrontendMessage
  | kind :: a :: b :: c :: d :: rest =>
      let len := int32 (ntohl [a, b, c, d] - 4)
      if 0 < len then
        if rest.length < len.toNat then none
        else some ⟨Char.ofNat kind.toNat, len, some (rest.take len.toNat)⟩
      else some ⟨Char.ofNat kind.toNat, len, none⟩
  | _ => none

/-- A message of the session that is kept: a prepared statement or a portal. -/
structure KeptMessage where
  kind : Char
  name : List UInt8
  noNul : 0 ∉ name
  numTsparams : Nat
  queryContext : Bool

/-- A text without NUL. -/
abbrev Text := { text : List UInt8 // 0 ∉ text }

/-- What the handlers go by, apart from the message. -/
structure FrontendEnv extends LobjConfig where
  ignoreTillSync : Bool
  /-- `debug_level` is positive. -/
  debug : Bool
  sent : List KeptMessage
  /-- The query is answered without the backends: SHOW pool_..., a cached result, a parallel query. -/
  answers : List UInt8 → Bool
  /-- `rewrite_timestamp` -/
  rewritten : List UInt8 → Option Text
  /-- `get_current_timestamp` -/
  timestamp : Option (List UInt8)
  /-- What the master answers to LOCK TABLE and the query for an id. -/
  lobjid : Option Nat

/-- What becomes of a message. -/
inductive Outcome where
  /-- The session ends, or gets an error. -/
  | ended
  /-- An error has been sent before, and the message is skipped. -/
  | ignored
  | answered
  /-- The body goes to the backends, as it is or as it has been rewritten. -/
  | forwarded (body : List UInt8)
  | rewritten (body : List UInt8)

/-! ## The handlers -/

variable (env : FrontendEnv)

/-- `strlen`, with what follows the NUL. -/
def cstring (contents : Option (List UInt8)) : Option (List UInt8 × List UInt8) :=
  contents.bind (Reader.upTo 0)

/-- `!strcmp` of a name and some memory. -/
def strcmpEq : List UInt8 → List UInt8 → Option Bool
  | _, [] => none
  | [], m :: _ => some (m = 0)
  | n :: name, m :: mem => if n = m then strcmpEq name mem else some false

/-- The loop of `pool_get_sent_message`. -/
def findMessage (mem : List UInt8) : List KeptMessage → Option (Option KeptMessage)
  | [] => some none
  | msg :: rest =>
      (strcmpEq msg.name mem).bind fun same => if same then some (some msg) else findMessage mem rest

/-- `pool_get_sent_message`; a name that is NULL is compared with the first message. -/
def poolGetSentMessage (kind : Char) (name : Option (List UInt8)) : Option (Option KeptMessage) :=
  let msgs := env.sent.filter (·.kind = kind)
  match name with
  | none => if msgs = [] then some none else none
  | some mem => findMessage mem msgs

/-- A prepared statement, of either protocol. -/
def getStatement (mem : List UInt8) : Option (Option KeptMessage) :=
  (poolGetSentMessage env 'Q' (some mem)).bind fun
    | some msg => some (some msg)
    | none => poolGetSentMessage env 'P' (some mem)

/-- The body goes to the backends for a message that has been found. -/
def forwardFor (body : List UInt8) : Option KeptMessage → Outcome
  | some msg => if msg.queryContext then .forwarded body else .ended
  | none => .ended

/-- `SimpleQuery` -/
def simpleQuery (contents : Option (List UInt8)) : Option Outcome :=
  (cstring contents).map fun (query, _) =>
    if env.answers query then .answered
    else
      match env.rewritten query with
      | some rewritten => .rewritten (rewritten.1 ++ [0])
      | none => .forwarded (contents.getD [])

/-- `Parse` -/
def parse (contents : Option (List UInt8)) : Option Outcome :=
  (cstring contents).bind fun (name, rest) =>
  (Reader.upTo 0 rest).map fun (stmt, rest) =>
    match if env.replication then env.rewritten stmt else none with
    | some rewritten => .rewritten (name ++ 0 :: (rewritten.1 ++ 0 :: rest))
    | none => .forwarded (contents.getD [])

/-- `Bind`, with `bind_rewrite_timestamp`.  The name of a statement that is not found is printed. -/
def bind (len : Int) (contents : Option (List UInt8)) : Option Outcome :=
  (cstring contents).bind fun (_, rest) =>
  (getStatement env rest).bind fun
    | none => (Reader.upTo 0 rest).map fun _ => .ended
    | some msg =>
        if msg.queryContext = false then some .ended
        else if env.replication ∧ 0 < msg.numTsparams then
          match bindRewriteTimestamp env.timestamp msg.numTsparams (contents.getD []) len with
          | .null => some (.forwarded (contents.getD []))
          | .crashed => none
          | .message newMsg _ => some (.rewritten newMsg)
        else some (.forwarded (contents.getD []))

/-- `Describe` -/
def describe (contents : Option (List UInt8)) : Option Outcome :=
  contents.bind fun
    | [] => none
    | kind :: name =>
        (if kind = 'S'.toUInt8 then getStatement env name else poolGetSentMessage env 'B' (some name)).map
          (forwardFor (kind :: name))

/-- `Close` -/
def close (contents : Option (List UInt8)) : Option Outcome :=
  contents.bind fun
    | [] => none
    | kind :: name =>
        if kind = 'S'.toUInt8 then (getStatement env name).map (forwardFor (kind :: name))
        else if kind = 'P'.toUInt8 then
          (poolGetSentMessage env 'B' (some name)).map (forwardFor (kind :: name))
        else some .ended

/-- `Execute`.  What is printed has to be a string, and NULL is none. -/
def execute (contents : Option (List UInt8)) : Option Outcome :=
  (if env.debug then (cstring contents).map fun _ => () else some ()).bind fun _ =>
  (poolGetSentMessage env 'B' contents).map (forwardFor (contents.getD []))

/-- `SimpleForwardToBackend` -/
def simpleForwardToBackend (len : Int) (contents : Option (List UInt8)) : Outcome :=
  if len < 0 then .ended else .forwarded (contents.getD [])

/-- The calls of `lo_creat` that `pool_rewrite_lo_creat` is for. -/
def creats (word : List UInt8) : Bool := ntohl word = env.loCreatOid

/-- `FunctionCall3`, with `pool_rewrite_lo_creat` -/
def functionCall3 (len : Int) (contents : Option (List UInt8)) : Option Outcome :=
  if env.lobjLockTable = "" ∨ env.replication = false then some (simpleForwardToBackend len contents)
  else
    contents.bind fun packet =>
    (Reader.take 4 packet).map fun (word, _) =>
      if creats env word then
        let code := ntohs (packet.drop (packet.length - 2))
        match if code = 0 ∨ code = 1 then env.lobjid else none with
        | some lobjid => .rewritten (loCreatePacket env.loCreateOid lobjid code)
        | none => .forwarded packet
      else .forwarded packet

/-- `ProcessFrontendResponse`, behind the reading of the message. -/
def dispatch (m : FrontendMessage) : Option Outcome :=
  if m.kind ≠ 'S' ∧ env.ignoreTillSync then some .ignored
  else
    match m.kind with
    | 'X' => some .ended
    | 'Q' => simpleQuery env m.contents
    | 'E' => execute env m.contents
    | 'P' => parse env m.contents
    | 'B' => bind env m.len m.contents
    | 'C' => close env m.contents
    | 'D' => describe env m.contents
    | 'F' => functionCall3 env m.len m.contents
    | 'S' | 'c' | 'd' | 'f' | 'H' => some (simpleForwardToBackend m.len m.contents)
    | _ => some .ended

/-- `ProcessFrontendResponse`.  `none`: something is read that is not of the message. -/
def processFrontendResponse (stream : List UInt8) : Option Outcome :=
  match readMessage stream with
  | none => some .ended
  | some m => dispatch env m

/-! ## Malformed messages -/

/-- Some words after their number. -/
def skipWords (size : Nat) (input : List UInt8) : Option (List UInt8) := do
  let (word, input) ← Reader.take 2 input
  let (_, input) ← memcpy (int16 word * size) input
  some input

/-- Some values after their number, each behind its length. -/
def skipValues (input : List UInt8) : Option (List UInt8) := do
  let (word, input) ← Reader.take 2 input
  let n ← paramsLen (int16 word).toNat input
  let (_, input) ← Reader.take n input
  some input

/-- The fields of a message are there: the names end, and counts and lengths do not go beyond the body. -/
def Complete (kind : Char) (body : List UInt8) : Bool :=
  Option.isSome <| match kind with
  | 'Q' => (Reader.upTo 0 body).map fun _ => ()
  | 'P' => do
      let (_, rest) ← Reader.upTo 0 body
      let (_, rest) ← Reader.upTo 0 rest
      let _ ← skipWords 4 rest
  | 'B' => do
      let (_, rest) ← Reader.upTo 0 body
      let (_, rest) ← Reader.upTo 0 rest
      let rest ← skipWords 2 rest
      let rest ← skipValues rest
      let (word, _) ← Reader.take 2 rest
      let _ ← Reader.take (2 + 2 * ntohs word) rest
  | 'D' | 'C' => do
      let (_, rest) ← Reader.take 1 body
      let _ ← Reader.upTo 0 rest
  | 'E' => do
      let (_, rest) ← Reader.upTo 0 body
      let _ ← Reader.take 4 rest
  | 'F' => do
      let (_, rest) ← Reader.take 4 body
      let rest ← skipWords 2 rest
      let rest ← skipValues rest
      let _ ← Reader.take 2 rest
  | _ => some ()

/-- The body is missing, or not complete. -/
def Malformed (m : FrontendMessage) : Prop := Complete m.kind (m.contents.getD []) = false

instance (m : FrontendMessage) : Decidable (Malformed m) := inferInstanceAs (Decidable (_ = false))

/-- The session ends or has got an error, or the backends are to answer with one. -/
def Outcome.Refuses (kind : Char) : Outcome → Prop
  | .ended | .ignored => True
  | .answered => False
  | .forwarded body | .rewritten body => Complete kind body = false

/-- Nothing is read that is not of the message, and a malformed message is refused. -/
def Meets (stream : List UInt8) : Prop :=
  ∃ outcome, processFrontendResponse env stream = some outcome ∧
    ∀ m, readMessage stream = some m → Malformed m → outcome.Refuses m.kind

/-! ## What the handlers rely on -/

/-- What is read for a message is of the message, and the message is refused if it is malformed. -/
def Accepts (kind : Char) (contents : Option (List UInt8)) (outcome : Option Outcome) : Prop :=
  ∃ o, outcome = some o ∧ (Complete kind (contents.getD []) = false → o.Refuses kind)

/-- No message of the kinds has a name that starts with all that is left of the body. -/
def Apart (kinds : List Char) (mem : List UInt8) : Prop :=
  ∀ msg ∈ env.sent, msg.kind ∈ kinds → ¬ mem <+: msg.name

/-- The fields of a Bind message to which timestamps are to be added are there. -/
def Stamped (body : List UInt8) : Prop :=
  ∀ name rest msg, Reader.upTo 0 body = some (name, rest) → getStatement env rest = some (some msg) →
    msg.queryContext → env.replication → 0 < msg.numTsparams → env.timestamp.isSome → Complete 'B' body

/-- The body has a function, and the fields that follow are there if it is `lo_creat`. -/
def Created (body : List UInt8) : Prop :=
  4 ≤ body.length ∧
    (creats env (body.take 4) → ntohs (body.drop (body.length - 2)) ≤ 1 → env.lobjid.isSome →
      Complete 'F' body)

/-- The kinds of the messages that a name after `S` or another letter is looked up among. -/
def kindsOf (letter : UInt8) : List Char := if letter = 'S'.toUInt8 then ['Q', 'P'] else ['B']

/-- What a handler relies on. -/
def Relies : Char → Option (List UInt8) → Prop
  | 'Q', contents => 0 ∈ contents.getD []
  | 'P', contents => 2 ≤ (contents.getD []).count 0
  | 'B', contents => 2 ≤ (contents.getD []).count 0 ∧ Stamped env (contents.getD [])
  | 'D', contents => ∃ letter name, contents = some (letter :: name) ∧ Apart env (kindsOf letter) name
  | 'C', contents => ∃ letter name, contents = some (letter :: name) ∧
      (letter = 'S'.toUInt8 ∨ letter = 'P'.toUInt8 → Apart env (kindsOf letter) name)
  | 'E', contents => (env.debug → 0 ∈ contents.getD []) ∧ Apart env ['B'] (contents.getD [])
  | 'F', contents => env.lobjLockTable ≠ "" → env.replication → Created env (contents.getD [])
  | _, _ => True

/-- The message is skipped, or has what its handler relies on. -/
def Careful (m : FrontendMessage) : Prop :=
  (m.kind ≠ 'S' ∧ env.ignoreTillSync) ∨ Relies env m.kind m.contents

/-! ## Names -/

theorem strcmpEq_eq_none {name mem : List UInt8} : strcmpEq name mem = none ↔ mem <+: name := by
  induction name generalizing mem with
  | nil => cases mem <;> simp [strcmpEq]
  | cons n name ih =>
    cases mem with
    | nil => simp [strcmpEq]
    | cons m mem =>
      rw [strcmpEq, List.cons_prefix_cons]
      by_cases heq : n = m
      · rw [if_pos heq, ih]
        exact ⟨fun h => ⟨heq.symm, h⟩, And.right⟩
      · rw [if_neg heq]
        exact ⟨fun h => (nomatch h), fun h => absurd h.1.symm heq⟩

theorem zero_mem_of_strcmpEq {name mem : List UInt8} (h : strcmpEq name mem = some true) : 0 ∈ mem := by
  induction name generalizing mem with
  | nil =>
    cases mem with
    | nil => cases h
    | cons m mem =>
      have hm : m = 0 := by simpa [strcmpEq] using h
      exact hm ▸ List.mem_cons_self
  | cons n name ih =>
    cases mem with
    | nil => cases h
    | cons m mem =>
      rw [strcmpEq] at h
      split at h
      · exact List.mem_cons_of_mem _ (ih h)
      · cases h

variable {env : FrontendEnv} {mem body : List UInt8} {contents : Option (List UInt8)}

theorem not_prefix_of_zero_mem (h : 0 ∈ mem) (msg : KeptMessage) : ¬ mem <+: msg.name :=
  fun hpre => msg.noNul (hpre.subset h)

/-- The loop goes beyond the memory for a name that starts with all of it. -/
theorem findMessage_eq_none {msgs : List KeptMessage} :
    findMessage mem msgs = none ↔ ∃ msg ∈ msgs, mem <+: msg.name := by
  induction msgs with
  | nil => simp [findMessage]
  | cons msg rest ih =>
    rw [findMessage]
    cases hcmp : strcmpEq msg.name mem with
    | none => simp [strcmpEq_eq_none.mp hcmp]
    | some same =>
      have hmsg : ¬ mem <+: msg.name := fun hpre => by simp [strcmpEq_eq_none.mpr hpre] at hcmp
      cases same with
      | false => simp [ih, hmsg]
      | true =>
        have hzero := zero_mem_of_strcmpEq hcmp
        simp [not_prefix_of_zero_mem hzero]

/-- A name that is found ends in the memory. -/
theorem zero_mem_of_findMessage {msgs : List KeptMessage} {msg : KeptMessage}
    (h : findMessage mem msgs = some (some msg)) : 0 ∈ mem := by
  induction msgs with
  | nil => cases h
  | cons first rest ih =>
    rw [findMessage] at h
    cases hcmp : strcmpEq first.name mem with
    | none => simp [hcmp] at h
    | some same =>
      cases same with
      | false => exact ih (by simpa [hcmp] using h)
      | true => exact zero_mem_of_strcmpEq hcmp

theorem poolGetSentMessage_eq_none {kind : Char} :
    poolGetSentMessage env kind (some mem) = none ↔ ¬ Apart env [kind] mem := by
  unfold poolGetSentMessage Apart
  simp [findMessage_eq_none, and_assoc]

theorem zero_mem_of_poolGetSentMessage {kind : Char} {msg : KeptMessage}
    (h : poolGetSentMessage env kind (some mem) = some (some msg)) : 0 ∈ mem := zero_mem_of_findMessage h

theorem apart_of_zero_mem (h : 0 ∈ mem) (kinds : List Char) : Apart env kinds mem :=
  fun msg _ _ => not_prefix_of_zero_mem h msg

theorem apart_pair {kind kind' : Char} :
    Apart env [kind, kind'] mem ↔ Apart env [kind] mem ∧ Apart env [kind'] mem := by
  unfold Apart
  simp only [List.mem_cons, List.not_mem_nil, or_false]
  constructor
  · intro h
    exact ⟨fun msg hmsg hkind => h msg hmsg (Or.inl hkind), fun msg hmsg hkind => h msg hmsg (Or.inr hkind)⟩
  · intro h msg hmsg hkind
    exact hkind.elim (h.1 msg hmsg) (h.2 msg hmsg)

theorem getStatement_eq_none : getStatement env mem = none ↔ ¬ Apart env ['Q', 'P'] mem := by
  unfold getStatement
  rw [apart_pair]
  cases hfound : poolGetSentMessage env 'Q' (some mem) with
  | none => simp [poolGetSentMessage_eq_none.mp hfound]
  | some found =>
    have hapart : Apart env ['Q'] mem := by
      by_contra hnot
      simp [poolGetSentMessage_eq_none.mpr hnot] at hfound
    cases found with
    | none => simp [hapart, poolGetSentMessage_eq_none]
    | some msg =>
      have hzero := zero_mem_of_poolGetSentMessage hfound
      simp [apart_of_zero_mem hzero]

theorem zero_mem_of_getStatement {msg : KeptMessage} (h : getStatement env mem = some (some msg)) :
    0 ∈ mem := by
  unfold getStatement at h
  cases hfound : poolGetSentMessage env 'Q' (some mem) with
  | none => simp [hfound] at h
  | some found =>
    cases found with
    | none => exact zero_mem_of_poolGetSentMessage (by simpa [hfound] using h)
    | some other => exact zero_mem_of_poolGetSentMessage hfound

/-! ## The handlers one by one -/

theorem not_accepts_none {kind : Char} : ¬ Accepts kind contents none := fun ⟨_, ho, _⟩ => nomatch ho

theorem accepts_some {kind : Char} {o : Outcome} :
    Accepts kind contents (some o) ↔ (Complete kind (contents.getD []) = false → o.Refuses kind) :=
  ⟨fun ⟨_, ho, hrefuses⟩ => Option.some.inj ho ▸ hrefuses, fun h => ⟨o, rfl, h⟩⟩

/-- A body that goes to the backends unchanged is refused there. -/
theorem accepts_forwardFor {kind : Char} {found : Option (Option KeptMessage)} :
    Accepts kind contents (found.map (forwardFor (contents.getD []))) ↔ found ≠ none := by
  cases found with
  | none => exact ⟨fun h => absurd h not_accepts_none, fun h => absurd rfl h⟩
  | some found =>
    refine ⟨fun _ => Option.some_ne_none _, fun _ => accepts_some.mpr fun hincomplete => ?_⟩
    cases found with
    | none => exact True.intro
    | some msg =>
      rw [forwardFor]
      split
      · exact hincomplete
      · exact True.intro

theorem cstring_split (contents : Option (List UInt8)) :
    (cstring contents = none ∧ 0 ∉ contents.getD []) ∨
      ∃ name rest, cstring contents = some (name, rest) ∧ 0 ∉ name ∧ contents = some (name ++ 0 :: rest) := by
  cases contents with
  | none => exact Or.inl ⟨rfl, List.not_mem_nil⟩
  | some body =>
    obtain ⟨hnone, hzero⟩ | ⟨name, rest, hsome, hname, hbody⟩ := Reader.upTo_split 0 body
    · exact Or.inl ⟨hnone, hzero⟩
    · exact Or.inr ⟨name, rest, hsome, hname, congrArg some hbody⟩

theorem accepts_simpleQuery : Accepts 'Q' contents (simpleQuery env contents) ↔ 0 ∈ contents.getD [] := by
  unfold simpleQuery
  obtain ⟨hnone, hzero⟩ | ⟨query, rest, hsome, hquery, rfl⟩ := cstring_split contents
  · rw [hnone]
    exact ⟨fun h => absurd h not_accepts_none, fun h => absurd h hzero⟩
  · rw [hsome, Option.map_some, accepts_some]
    have hcomplete : Complete 'Q' (query ++ 0 :: rest) = true := by
      simp [Complete, Reader.upTo_append hquery]
    simp [hcomplete]

theorem count_append_zero {front rest : List UInt8} (h : 0 ∉ front) :
    2 ≤ (front ++ 0 :: rest).count 0 ↔ 0 ∈ rest := by
  rw [List.count_append, List.count_eq_zero.mpr h, List.count_cons_self, ← List.count_pos_iff]
  omega

theorem accepts_parse : Accepts 'P' contents (parse env contents) ↔ 2 ≤ (contents.getD []).count 0 := by
  unfold parse
  obtain ⟨hnone, hzero⟩ | ⟨name, rest, hsome, hname, rfl⟩ := cstring_split contents
  · rw [hnone, List.count_eq_zero.mpr hzero]
    exact ⟨fun h => absurd h not_accepts_none, fun h => absurd h (by decide)⟩
  · rw [hsome, Option.getD_some, count_append_zero hname]
    simp only [Option.bind_some]
    obtain ⟨hnone, hzero⟩ | ⟨stmt, rest', hsome', hstmt, rfl⟩ := Reader.upTo_split 0 rest
    · rw [hnone]
      exact ⟨fun h => absurd h not_accepts_none, fun h => absurd h hzero⟩
    · rw [hsome', Option.map_some, accepts_some]
      have hfields : ∀ stmt : List UInt8, 0 ∉ stmt →
          Complete 'P' (name ++ 0 :: (stmt ++ 0 :: rest')) = (skipWords 4 rest').isSome := by
        intro stmt hstmt
        cases hwords : skipWords 4 rest' <;>
          simp [Complete, Reader.upTo_append hname, Reader.upTo_append hstmt, hwords]
      refine ⟨fun _ => by simp, fun _ hincomplete => ?_⟩
      rw [Option.getD_some, hfields stmt hstmt] at hincomplete
      split
      · rename_i rewritten _
        exact (hfields rewritten.1 rewritten.2).trans hincomplete
      · exact (hfields stmt hstmt).trans hincomplete

theorem copyFormats_rest (numTsparams : Nat) (input : List UInt8) :
    (copyFormats numTsparams input).map (fun copied => copied.2.2) = skipWords 2 input := by
  unfold copyFormats skipWords
  cases Reader.take 2 input with
  | none => rfl
  | some word =>
    simp only [Option.bind_eq_bind, Option.bind_some]
    cases memcpy (int16 word.1 * 2) word.2 with
    | none => rfl
    | some formats =>
      simp only [Option.bind_some]
      split <;> rfl

theorem copyParams_rest (ts : List UInt8) (numTsparams : Nat) (input : List UInt8) :
    (copyParams ts numTsparams input).map Prod.snd = skipValues input := by
  unfold copyParams skipValues
  cases Reader.take 2 input with
  | none => rfl
  | some word =>
    simp only [Option.bind_eq_bind, Option.bind_some]
    cases paramsLen (int16 word.1).toNat word.2 with
    | none => rfl
    | some n =>
      simp only [Option.bind_some]
      cases Reader.take n word.2 <;> rfl

theorem isSome_copyResults (input : List UInt8) :
    (copyResults input).isSome = (do
      let (word, _) ← Reader.take 2 input
      let _ ← Reader.take (2 + 2 * ntohs word) input).isSome := by
  unfold copyResults
  cases Reader.take 2 input with
  | none => rfl
  | some word =>
    simp only [Option.bind_eq_bind, Option.bind_some]
    cases Reader.take (2 + 2 * ntohs word.1) input <;> rfl

/-- The copying stays inside of the message where its fields are there. -/
theorem isSome_copyMessage (ts : List UInt8) (numTsparams : Nat) (len : Int) :
    (copyMessage ts numTsparams body len).isSome = Complete 'B' body := by
  unfold copyMessage Complete
  cases Reader.upTo 0 body with
  | none => rfl
  | some portal =>
    simp only [Option.bind_eq_bind, Option.bind_some]
    cases Reader.upTo 0 portal.2 with
    | none => rfl
    | some stmt =>
      simp only [Option.bind_some, ← copyFormats_rest numTsparams stmt.2]
      cases copyFormats numTsparams stmt.2 with
      | none => rfl
      | some formats =>
        simp only [Option.bind_some, Option.map_some, ← copyParams_rest ts numTsparams formats.2.2]
        cases copyParams ts numTsparams formats.2.2 with
        | none => rfl
        | some params =>
          simp only [Option.bind_some, Option.map_some]
          refine Eq.trans ?_ (isSome_copyResults params.2)
          cases copyResults params.2 <;> rfl

theorem bindRewriteTimestamp_some (body ts : List UInt8) (numTsparams : Nat) (len : Int) :
    (∃ newMsg len', bindRewriteTimestamp (some ts) numTsparams body len = .message newMsg len') ∧
        Complete 'B' body = true ∨
      bindRewriteTimestamp (some ts) numTsparams body len = .crashed ∧ Complete 'B' body = false := by
  rw [← isSome_copyMessage ts numTsparams len, bindRewriteTimestamp]
  cases copyMessage ts numTsparams body len with
  | none => exact Or.inr ⟨rfl, rfl⟩
  | some copied => exact Or.inl ⟨⟨copied.1, copied.2, rfl⟩, rfl⟩

/-- What becomes of the message when its statement has been found. -/
theorem accepts_bound {msg : KeptMessage} {len : Int} :
    Accepts 'B' (some body)
        (if msg.queryContext = false then some .ended
        else if env.replication ∧ 0 < msg.numTsparams then
          match bindRewriteTimestamp env.timestamp msg.numTsparams body len with
          | .null => some (.forwarded body)
          | .crashed => none
          | .message newMsg _ => some (.rewritten newMsg)
        else some (.forwarded body)) ↔
      (msg.queryContext → env.replication → 0 < msg.numTsparams → env.timestamp.isSome →
        Complete 'B' body) := by
  cases hctx : msg.queryContext with
  | false =>
    rw [if_pos rfl]
    exact ⟨fun _ h => (nomatch h), fun _ => accepts_some.mpr fun _ => True.intro⟩
  | true =>
    rw [if_neg (by decide)]
    by_cases hstamps : env.replication = true ∧ 0 < msg.numTsparams
    · rw [if_pos hstamps]
      cases hts : env.timestamp with
      | none => exact ⟨fun _ _ _ _ h => (nomatch h), fun _ => accepts_some.mpr id⟩
      | some ts =>
        obtain ⟨⟨newMsg, len', hmessage⟩, hcomplete⟩ | ⟨hcrashed, hincomplete⟩ :=
          bindRewriteTimestamp_some body ts msg.numTsparams len
        · rw [hmessage]
          refine ⟨fun _ _ _ _ _ => hcomplete, fun _ => accepts_some.mpr fun hincomplete => ?_⟩
          exact nomatch hcomplete.symm.trans hincomplete
        · rw [hcrashed]
          refine ⟨fun h => absurd h not_accepts_none, fun h => ?_⟩
          exact nomatch (h rfl hstamps.1 hstamps.2 rfl).symm.trans hincomplete
    · rw [if_neg hstamps]
      exact ⟨fun _ _ hreplication hparams => absurd ⟨hreplication, hparams⟩ hstamps,
        fun _ => accepts_some.mpr id⟩

theorem accepts_bind {len : Int} :
    Accepts 'B' contents (bind env len contents) ↔
      2 ≤ (contents.getD []).count 0 ∧ Stamped env (contents.getD []) := by
  unfold bind
  obtain ⟨hnone, hzero⟩ | ⟨portal, rest, hsome, hportal, rfl⟩ := cstring_split contents
  · rw [hnone, List.count_eq_zero.mpr hzero]
    exact ⟨fun h => absurd h not_accepts_none, fun h => absurd h.1 (by decide)⟩
  · rw [hsome, Option.getD_some, count_append_zero hportal]
    have hupTo := Reader.upTo_append hportal rest
    simp only [Option.bind_some]
    cases hfound : getStatement env rest with
    | none =>
      refine ⟨fun h => absurd h not_accepts_none, fun h => ?_⟩
      exact absurd (apart_of_zero_mem h.1 _) (getStatement_eq_none.mp hfound)
    | some found =>
      cases found with
      | none =>
        have hstamped : Stamped env (portal ++ 0 :: rest) := by
          intro name rest' msg hname hmsg
          rw [hupTo] at hname
          cases hname
          rw [hfound] at hmsg
          cases hmsg
        rw [and_iff_left hstamped]
        obtain ⟨hnone, hzero⟩ | ⟨stmt, rest', hsome', hstmt, rfl⟩ := Reader.upTo_split 0 rest
        · simp only [Option.bind_some, hnone, Option.map_none]
          exact ⟨fun h => absurd h not_accepts_none, fun h => absurd h hzero⟩
        · simp only [Option.bind_some, hsome', Option.map_some]
          exact ⟨fun _ => by simp, fun _ => accepts_some.mpr fun _ => True.intro⟩
      | some msg =>
        rw [and_iff_right (zero_mem_of_getStatement hfound)]
        have hstamped : Stamped env (portal ++ 0 :: rest) ↔
            (msg.queryContext → env.replication → 0 < msg.numTsparams → env.timestamp.isSome →
              Complete 'B' (portal ++ 0 :: rest)) := by
          refine ⟨fun h => h portal rest msg hupTo hfound, fun h name rest' msg' hname hmsg => ?_⟩
          rw [hupTo] at hname
          cases hname
          rw [hfound] at hmsg
          cases hmsg
          exact h
        rw [hstamped]
        exact accepts_bound

theorem accepts_lookup {letter : UInt8} {name : List UInt8} {kind : Char}
    {found : Option (Option KeptMessage)} {kinds : List Char}
    (hfound : found = none ↔ ¬ Apart env kinds name) :
    Accepts kind (some (letter :: name)) (found.map (forwardFor (letter :: name))) ↔
      Apart env kinds name := by
  have hiff :
      Accepts kind (some (letter :: name)) (found.map (forwardFor (letter :: name))) ↔ found ≠ none :=
    accepts_forwardFor
  rw [hiff, Ne, hfound, not_not]

/-- A name behind a letter is looked up among the messages of the letter's kinds. -/
theorem accepts_describe : Accepts 'D' contents (describe env contents) ↔ Relies env 'D' contents := by
  unfold describe
  cases contents with
  | none => exact ⟨fun h => absurd h not_accepts_none, fun ⟨_, _, h, _⟩ => nomatch h⟩
  | some body =>
    cases body with
    | nil => exact ⟨fun h => absurd h not_accepts_none, fun ⟨_, _, h, _⟩ => nomatch h⟩
    | cons letter name =>
      have hrelies : Relies env 'D' (some (letter :: name)) ↔ Apart env (kindsOf letter) name :=
        ⟨fun ⟨_, _, h, hapart⟩ => by cases h; exact hapart, fun hapart => ⟨letter, name, rfl, hapart⟩⟩
      rw [hrelies]
      simp only [Option.bind_some]
      by_cases hletter : letter = 'S'.toUInt8
      · rw [kindsOf, if_pos hletter, if_pos hletter]
        exact accepts_lookup getStatement_eq_none
      · rw [kindsOf, if_neg hletter, if_neg hletter]
        exact accepts_lookup poolGetSentMessage_eq_none

theorem accepts_close : Accepts 'C' contents (close env contents) ↔ Relies env 'C' contents := by
  unfold close
  cases contents with
  | none => exact ⟨fun h => absurd h not_accepts_none, fun ⟨_, _, h, _⟩ => nomatch h⟩
  | some body =>
    cases body with
    | nil => exact ⟨fun h => absurd h not_accepts_none, fun ⟨_, _, h, _⟩ => nomatch h⟩
    | cons letter name =>
      have hrelies : Relies env 'C' (some (letter :: name)) ↔
          (letter = 'S'.toUInt8 ∨ letter = 'P'.toUInt8 → Apart env (kindsOf letter) name) :=
        ⟨fun ⟨_, _, h, hapart⟩ => by cases h; exact hapart, fun hapart => ⟨letter, name, rfl, hapart⟩⟩
      rw [hrelies]
      simp only [Option.bind_some]
      by_cases hletter : letter = 'S'.toUInt8
      · rw [kindsOf, if_pos hletter, if_pos hletter, imp_iff_right (Or.inl hletter)]
        exact accepts_lookup getStatement_eq_none
      · rw [kindsOf, if_neg hletter, if_neg hletter]
        by_cases hportal : letter = 'P'.toUInt8
        · rw [if_pos hportal, imp_iff_right (Or.inr hportal)]
          exact accepts_lookup poolGetSentMessage_eq_none
        · rw [if_neg hportal]
          have hneither : ¬ (letter = 'S'.toUInt8 ∨ letter = 'P'.toUInt8) := not_or.mpr ⟨hletter, hportal⟩
          exact ⟨fun _ h => absurd h hneither, fun _ => accepts_some.mpr fun _ => True.intro⟩

/-- The portal of an Execute message, whose body is printed first. -/
theorem accepts_execute : Accepts 'E' contents (execute env contents) ↔ Relies env 'E' contents := by
  have hsent : poolGetSentMessage env 'B' contents = none ↔ ¬ Apart env ['B'] (contents.getD []) := by
    cases contents with
    | some body => exact poolGetSentMessage_eq_none
    | none => simp [poolGetSentMessage, Apart]
  have hlookup :
      Accepts 'E' contents ((poolGetSentMessage env 'B' contents).map (forwardFor (contents.getD []))) ↔
        Apart env ['B'] (contents.getD []) := by
    rw [accepts_forwardFor, Ne, hsent, not_not]
  unfold execute
  cases hdebug : env.debug with
  | false =>
    rw [if_neg (by decide), Option.bind_some, hlookup]
    exact ⟨fun h => ⟨fun hd => absurd (hdebug.symm.trans hd) (by decide), h⟩, And.right⟩
  | true =>
    obtain ⟨hnone, hzero⟩ | ⟨portal, rest, hsome, -, hcontents⟩ := cstring_split contents
    · rw [if_pos rfl, hnone]
      exact ⟨fun h => absurd h not_accepts_none, fun h => absurd (h.1 hdebug) hzero⟩
    · have hzero : 0 ∈ contents.getD [] := by simp [hcontents]
      rw [if_pos rfl, hsome, Option.map_some, Option.bind_some, hlookup]
      exact ⟨fun h => ⟨fun _ => hzero, h⟩, And.right⟩

/-! ## Function calls -/

theorem accepts_simpleForwardToBackend {kind : Char} {len : Int} :
    Accepts kind contents (some (simpleForwardToBackend len contents)) := by
  refine accepts_some.mpr fun hincomplete => ?_
  rw [simpleForwardToBackend]
  split
  · exact True.intro
  · exact hincomplete

theorem skipWords_append {front : List UInt8} {n size : Nat} (hn : n < 2 ^ 15) (h : front.length = n * size)
    (rest : List UInt8) : skipWords size (htons n ++ (front ++ rest)) = some rest := by
  have hlen : (front.length : Int) = n * size := by exact_mod_cast h
  unfold skipWords
  rw [Reader.take_append (length_htons n)]
  simp only [Option.bind_eq_bind, Option.bind_some, int16_htons hn, memcpy_append hlen]

theorem skipValues_append {params : List (Option (List UInt8))} (hn : params.length < 2 ^ 15)
    (h : ∀ value, some value ∈ params → value.length < 2 ^ 31) (rest : List UInt8) :
    skipValues (htons params.length ++ (params.flatMap paramBytes ++ rest)) = some rest := by
  unfold skipValues
  rw [Reader.take_append (length_htons params.length)]
  simp only [Option.bind_eq_bind, Option.bind_some, int16_htons hn, Int.toNat_natCast, paramsLen_append h,
    Reader.take_append rfl]

/-- A call of `lo_creat` is replaced by one that is complete. -/
theorem complete_loCreatePacket (loCreateOid lobjid code : Nat) :
    Complete 'F' (loCreatePacket loCreateOid lobjid code) = true := by
  have hvalue : ∀ value, some value ∈ [some (htonl lobjid)] → value.length < 2 ^ 31 := by
    intro value hmem
    have hone : value = htonl lobjid := by simpa using hmem
    rw [hone, length_htonl]
    decide
  have hsize : [some (htonl lobjid)].length < 2 ^ 15 := show 1 < 2 ^ 15 by decide
  have hpacket : loCreatePacket loCreateOid lobjid code =
      htonl loCreateOid ++ (htons 1 ++ (htons 1 ++ (htons [some (htonl lobjid)].length ++
        ([some (htonl lobjid)].flatMap paramBytes ++ htons code)))) := by
    simp [loCreatePacket, paramBytes, length_htonl]
  rw [hpacket]
  unfold Complete
  simp only [Option.bind_eq_bind]
  rw [Reader.take_append (length_htonl loCreateOid), Option.bind_some,
    skipWords_append (by decide) (length_htons 1), Option.bind_some, skipValues_append hsize hvalue,
    Option.bind_some]
  rfl

/-- What becomes of a call whose function has been read. -/
theorem accepts_called {packet : List UInt8} {code : Nat} :
    (Complete 'F' packet = false →
        Outcome.Refuses 'F'
          (if creats env (packet.take 4) then
            match if code = 0 ∨ code = 1 then env.lobjid else none with
            | some lobjid => .rewritten (loCreatePacket env.loCreateOid lobjid code)
            | none => .forwarded packet
          else .forwarded packet)) ↔
      (creats env (packet.take 4) → code ≤ 1 → env.lobjid.isSome → Complete 'F' packet) := by
  by_cases hcreats : creats env (packet.take 4) = true
  · rw [if_pos hcreats, imp_iff_right hcreats]
    by_cases hcode : code = 0 ∨ code = 1
    · rw [if_pos hcode, imp_iff_right (show code ≤ 1 by omega)]
      cases env.lobjid with
      | none => exact ⟨fun _ h => (nomatch h), fun _ => id⟩
      | some lobjid =>
        rw [imp_iff_right (show (some lobjid).isSome from rfl)]
        constructor
        · intro hrefuses
          by_contra hnot
          have hcomplete := hrefuses (Bool.not_eq_true _ ▸ hnot)
          exact nomatch (complete_loCreatePacket _ _ _).symm.trans hcomplete
        · intro hcomplete hincomplete
          exact nomatch hcomplete.symm.trans hincomplete
    · rw [if_neg hcode]
      exact ⟨fun _ h => absurd h (by omega), fun _ => id⟩
  · rw [if_neg hcreats]
    exact ⟨fun _ h => absurd h hcreats, fun _ => id⟩

theorem accepts_functionCall3 {len : Int} :
    Accepts 'F' contents (functionCall3 env len contents) ↔ Relies env 'F' contents := by
  unfold functionCall3
  by_cases hplain : env.lobjLockTable = "" ∨ env.replication = false
  · rw [if_pos hplain]
    refine ⟨fun _ htable hreplication => ?_, fun _ => accepts_simpleForwardToBackend⟩
    exact absurd hplain (by simp [htable, hreplication])
  · rw [if_neg hplain]
    rw [not_or, Bool.not_eq_false] at hplain
    have hrelies : Relies env 'F' contents ↔ Created env (contents.getD []) :=
      ⟨fun h => h hplain.1 hplain.2, fun h _ _ => h⟩
    rw [hrelies]
    cases contents with
    | none => exact ⟨fun h => absurd h not_accepts_none, fun h => absurd h.1 (by decide)⟩
    | some packet =>
      rw [Option.bind_some, Option.getD_some, Created, Reader.take]
      by_cases hfour : 4 ≤ packet.length
      · rw [if_pos hfour, Option.map_some, accepts_some, Option.getD_some, and_iff_right hfour]
        exact accepts_called
      · rw [if_neg hfour]
        exact ⟨fun h => absurd h not_accepts_none, fun h => absurd h.1 hfour⟩

/-! ## All messages -/

theorem accepts_dispatch (m : FrontendMessage) :
    Accepts m.kind m.contents (dispatch env m) ↔ Careful env m := by
  unfold dispatch Careful
  by_cases hskip : m.kind ≠ 'S' ∧ env.ignoreTillSync = true
  · rw [if_pos hskip]
    exact ⟨fun _ => Or.inl hskip, fun _ => accepts_some.mpr fun _ => True.intro⟩
  · rw [if_neg hskip, or_iff_right hskip]
    obtain ⟨kind, len, contents⟩ := m
    simp only
    split
    · exact ⟨fun _ => by simp [Relies], fun _ => accepts_some.mpr fun _ => True.intro⟩
    · exact accepts_simpleQuery
    · exact accepts_execute
    · exact accepts_parse
    · exact accepts_bind
    · exact accepts_close
    · exact accepts_describe
    · exact accepts_functionCall3
    case h_14 =>
      refine ⟨fun _ => ?_, fun _ => accepts_some.mpr fun _ => True.intro⟩
      unfold Relies
      split
      all_goals first | exact True.intro | contradiction
    -- what is forwarded without a look into it
    all_goals exact ⟨fun _ => by simp [Relies], fun _ => accepts_simpleForwardToBackend⟩

end PgPool.Bounds
