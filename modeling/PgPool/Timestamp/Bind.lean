import Mathlib.Data.List.GetD
import PgPool.Lib.Reader
import PgPool.Stream.Words

/-!
# Rewriting a Bind message

`bind_rewrite_timestamp` adds the parameters that stand for the timestamp to a Bind message of protocol
V3, which it copies piece by piece.
-/

namespace PgPool.Bind

open Words

/-! ## Bind messages -/

/-- What a Bind message says.  A null value is absent. -/
structure BindFields where
  portalName : List UInt8
  stmtName : List UInt8
  formats : List UInt16
  params : List (Option (List UInt8))
  resultFormats : List UInt16
  deriving DecidableEq

namespace BindFields

/-- The format of a parameter: text is 0. -/
def format (m : BindFields) (i : Nat) : UInt16 :=
  match m.formats with
  | [] => 0
  | [code] => code
  | codes => codes.getD i 0

/-- Names without null characters, no format code, one or one for each parameter, and numbers that fit
into their words. -/
structure WellFormed (m : BindFields) : Prop where
  portalName : 0 ∉ m.portalName
  stmtName : 0 ∉ m.stmtName
  formats : m.formats.length ≤ 1 ∨ m.formats.length = m.params.length
  params : m.params.length < 2 ^ 16
  resultFormats : m.resultFormats.length < 2 ^ 16
  values : ∀ value, some value ∈ m.params → value.length < 2 ^ 31

end BindFields

def codeBytes (code : UInt16) : List UInt8 := htons code.toNat

/-- A length word of -1 stands for a null value. -/
def paramBytes : Option (List UInt8) → List UInt8
  | none => htonl (2 ^ 32 - 1)
  | some value => htonl value.length ++ value

/-- The bytes of a message behind its length word. -/
def encode (m : BindFields) : List UInt8 :=
  m.portalName ++ 0 :: (m.stmtName ++ 0 :: (htons m.formats.length ++ (m.formats.flatMap codeBytes ++
    (htons m.params.length ++ (m.params.flatMap paramBytes ++
      (htons m.resultFormats.length ++ m.resultFormats.flatMap codeBytes))))))

/-- A message that can arrive. -/
structure BindMessage where
  fields : BindFields
  wellFormed : fields.WellFormed
  fits : (encode fields).length + 4 < 2 ^ 31

/-! ## Reading them -/

def readCode (input : List UInt8) : Option (UInt16 × List UInt8) := do
  let (word, input) ← Reader.take 2 input
  some (UInt16.ofNat (ntohs word), input)

def readParam (input : List UInt8) : Option (Option (List UInt8) × List UInt8) := do
  let (word, input) ← Reader.take 4 input
  if ntohl word = 2 ^ 32 - 1 then some (none, input)
  else if ntohl word < 2 ^ 31 then
    let (value, input) ← Reader.take (ntohl word) input
    some (some value, input)
  else none

/-- Some values after their number. -/
def readCounted {α : Type} (read : List UInt8 → Option (α × List UInt8)) (input : List UInt8) :
    Option (List α × List UInt8) := do
  let (word, input) ← Reader.take 2 input
  Reader.many read (ntohs word) input

/-- How the receiver reads a message. -/
def decode (input : List UInt8) : Option BindFields := do
  let (portalName, input) ← Reader.upTo 0 input
  let (stmtName, input) ← Reader.upTo 0 input
  let (formats, input) ← readCounted readCode input
  let (params, input) ← readCounted readParam input
  let (resultFormats, input) ← readCounted readCode input
  if input = [] ∧ (formats.length ≤ 1 ∨ formats.length = params.length) then
    some ⟨portalName, stmtName, formats, params, resultFormats⟩
  else none

variable {m m' : BindFields} {rest : List UInt8}

theorem inverts_readCode (code : UInt16) : Reader.Inverts readCode codeBytes code := by
  intro rest
  have hlt : code.toNat < 2 ^ 16 := code.toNat_lt
  have htake := Reader.take_append (length_htons code.toNat) rest
  simp [readCode, codeBytes, htake, ntohs_htons hlt]

theorem inverts_readParam {param : Option (List UInt8)}
    (h : ∀ value, param = some value → value.length < 2 ^ 31) :
    Reader.Inverts readParam paramBytes param := by
  intro rest
  cases param with
  | none =>
    have htake := Reader.take_append (length_htonl (2 ^ 32 - 1)) rest
    have hnull : ntohl (htonl (2 ^ 32 - 1)) = 2 ^ 32 - 1 := ntohl_htonl (by omega)
    unfold readParam paramBytes
    rw [htake]
    simp only [Option.bind_eq_bind, Option.bind_some, hnull, if_true]
  | some value =>
    have hlt := h value rfl
    have htake := Reader.take_append (length_htonl value.length) (value ++ rest)
    have hsize : ntohl (htonl value.length) = value.length := ntohl_htonl (by omega)
    have hvalue := Reader.take_append (rfl : value.length = value.length) rest
    have hnull : ¬ value.length = 2 ^ 32 - 1 := by omega
    unfold readParam paramBytes
    rw [List.append_assoc, htake]
    simp only [Option.bind_eq_bind, Option.bind_some, hsize, if_neg hnull, if_pos hlt, hvalue]

theorem readCounted_append {α : Type} {read : List UInt8 → Option (α × List UInt8)}
    {write : α → List UInt8} {as : List α} (h : ∀ a ∈ as, Reader.Inverts read write a)
    (hlen : as.length < 2 ^ 16) (rest : List UInt8) :
    readCounted read (htons as.length ++ (as.flatMap write ++ rest)) = some (as, rest) := by
  unfold readCounted
  rw [Reader.take_append (length_htons as.length)]
  simp only [Option.bind_eq_bind, Option.bind_some, ntohs_htons hlen, Reader.many_append h]

/-- Messages are read as they have been written. -/
theorem decode_encode (h : m.WellFormed) : decode (encode m) = some m := by
  have hcodes : ∀ codes : List UInt16, ∀ code ∈ codes, Reader.Inverts readCode codeBytes code :=
    fun _ code _ => inverts_readCode code
  have hparams : ∀ param ∈ m.params, Reader.Inverts readParam paramBytes param := by
    intro param hparam
    exact inverts_readParam fun value hvalue => h.values value (hvalue ▸ hparam)
  have hformats : m.formats.length < 2 ^ 16 := by
    have := h.formats
    have := h.params
    omega
  have hlast := readCounted_append (hcodes m.resultFormats) h.resultFormats []
  rw [List.append_nil] at hlast
  unfold decode encode
  rw [Reader.upTo_append h.portalName]
  simp only [Option.bind_eq_bind, Option.bind_some]
  rw [Reader.upTo_append h.stmtName]
  simp only [Option.bind_some]
  rw [readCounted_append (hcodes m.formats) hformats]
  simp only [Option.bind_some]
  rw [readCounted_append hparams h.params]
  simp only [Option.bind_some, hlast]
  exact if_pos ⟨trivial, h.formats⟩

theorem length_params_of_decode {input : List UInt8} (h : decode input = some m) :
    m.params.length < 2 ^ 16 := by
  simp only [decode, readCounted, Option.bind_eq_bind, Option.bind_eq_some_iff] at h
  obtain ⟨_, -, _, -, _, -, ⟨params, input'⟩, ⟨⟨word, input''⟩, hword, hparams⟩, _, -, heq⟩ := h
  split at heq
  · cases heq
    have hlen : params.length = ntohs word := Reader.length_of_many hparams
    have htwo : word.length = 2 := Reader.length_of_take hword
    obtain ⟨a, b, rfl⟩ := List.length_eq_two.mp htwo
    have := a.toNat_lt
    have := b.toNat_lt
    rw [hlen]
    simp only [ntohs, ntohl, List.foldl_cons, List.foldl_nil]
    omega
  · cases heq

/-! ## The source -/

/-- `memcpy` of the next bytes.  A negative length is a very large one. -/
def memcpy (len : Int) (from' : List UInt8) : Option (List UInt8 × List UInt8) :=
  if len < 0 then none else Reader.take len.toNat from'

/-- What a length word adds to `copy_len`: only a positive length does. -/
def valueLen (word : List UInt8) : Nat := (int32 (ntohl word)).toNat

/-- The loop over the parameters: how many bytes they have. -/
def paramsLen (numParams : Nat) (from' : List UInt8) : Option Nat :=
  Reader.extent 4 valueLen numParams from'

/-- The format codes, and whether codes have been added. -/
def copyFormats (numTsparams : Nat) (from' : List UInt8) :
    Option (Bool × List UInt8 × List UInt8) := do
  let (word, from') ← Reader.take 2 from'
  let numFormats := int16 word
  let (formats, from') ← memcpy (numFormats * 2) from'
  if 1 < numFormats then
    -- set format codes to zero (text)
    some (true, htons (ntohs word + numTsparams) ++ (formats ++ List.replicate (numTsparams * 2) 0),
      from')
  else some (false, htons (ntohs word) ++ formats, from')

/-- The parameters, with the timestamps behind them. -/
def copyParams (ts : List UInt8) (numTsparams : Nat) (from' : List UInt8) :
    Option (List UInt8 × List UInt8) := do
  let (word, from') ← Reader.take 2 from'
  let copyLen ← paramsLen (int16 word).toNat from'
  let (params, from') ← Reader.take copyLen from'
  let tsparams := (List.replicate numTsparams (htonl ts.length ++ ts)).flatten
  some (htons (ntohs word + numTsparams) ++ (params ++ tsparams), from')

/-- The result format codes. -/
def copyResults (from' : List UInt8) : Option (List UInt8) := do
  let (word, _) ← Reader.take 2 from'
  let (results, _) ← Reader.take (2 + 2 * ntohs word) from'
  some results

/-- The copying; `none`: it goes beyond the message.  The block that is allocated has room for what is
written as long as `*len` does not overflow. -/
def copyMessage (ts : List UInt8) (numTsparams : Nat) (origMsg : List UInt8) (len : Int) :
    Option (List UInt8 × Int) := do
  let (portalName, from') ← Reader.upTo 0 origMsg
  let (stmtName, from') ← Reader.upTo 0 from'
  let (enlarged, formats, from') ← copyFormats numTsparams from'
  let (params, from') ← copyParams ts numTsparams from'
  let results ← copyResults from'
  let len := int32 (len + (ts.length + 4) * numTsparams)
  some (portalName ++ 0 :: (stmtName ++ 0 :: (formats ++ (params ++ results))),
    if enlarged then int32 (len + numTsparams * 2) else len)

/-- What a call does. -/
inductive Rewritten where
  /-- `NULL`: the master has not told the time. -/
  | null
  | crashed
  | message (newMsg : List UInt8) (len : Int)

/-- `bind_rewrite_timestamp`; `ts` is what `get_current_timestamp` returns. -/
def bindRewriteTimestamp (ts : Option (List UInt8)) (numTsparams : Nat) (origMsg : List UInt8)
    (len : Int) : Rewritten :=
  match ts with
  | none => .null
  | some ts =>
    match copyMessage ts numTsparams origMsg len with
    | none => .crashed
    | some (newMsg, len) => .message newMsg len

/-! ## What is claimed -/

/-- The names, the result formats and the parameters are kept, and timestamps in text format follow. -/
structure Appends (ts : List UInt8) (numTsparams : Nat) (m m' : BindFields) : Prop where
  portalName : m'.portalName = m.portalName
  stmtName : m'.stmtName = m.stmtName
  resultFormats : m'.resultFormats = m.resultFormats
  params : m'.params = m.params ++ List.replicate numTsparams (some ts)
  kept : ∀ i < m.params.length, m'.format i = m.format i
  added : ∀ i, m.params.length ≤ i → i < m.params.length + numTsparams → m'.format i = 0

/-- The message that results is read so, and its length is right. -/
def Exact (ts : List UInt8) (numTsparams : Nat) (m : BindFields) (result : Rewritten) : Prop :=
  ∃ newMsg m', result = .message newMsg newMsg.length ∧ decode newMsg = some m' ∧
    Appends ts numTsparams m m'

/-! ## The condition -/

/-- The message that the function writes where all counts are small. -/
def appended (ts : List UInt8) (numTsparams : Nat) (m : BindFields) : BindFields :=
  { m with
    formats := if 1 < m.formats.length then m.formats ++ List.replicate numTsparams 0 else m.formats
    params := m.params ++ List.replicate numTsparams (some ts) }

/-- The numbers of the parameters, and of those with the timestamps, fit into a `short` with and without
sign; no single format code other than text is there for all parameters, if some are added; and the
length of the new message fits into an `int`. -/
structure Appendable (ts : List UInt8) (numTsparams : Nat) (m : BindFields) : Prop where
  params : m.params.length < 2 ^ 15
  all : m.params.length + numTsparams < 2 ^ 16
  format : numTsparams ≠ 0 → m.formats.length = 1 → m.formats = [0]
  fits : (encode (appended ts numTsparams m)).length < 2 ^ 31

/-! ## Copying -/

variable {ts : List UInt8} {numTsparams : Nat} {len : Int}

/-- The length word of a parameter tells how many bytes follow; none, if it is that of a null value. -/
theorem paramBytes_eq {param : Option (List UInt8)}
    (h : ∀ value, param = some value → value.length < 2 ^ 31) :
    ∃ word value, paramBytes param = word ++ value ∧ word.length = 4 ∧
      valueLen word = value.length := by
  unfold valueLen
  cases param with
  | none =>
    refine ⟨htonl (2 ^ 32 - 1), [], (List.append_nil _).symm, length_htonl _, ?_⟩
    rw [ntohl_htonl (by omega)]
    decide
  | some value =>
    have hlt := h value rfl
    refine ⟨htonl value.length, value, rfl, rfl, ?_⟩
    have hsize : int32 ((value.length : Nat) : Int) = value.length :=
      Int.bmod_eq_of_le (by omega) (by omega)
    rw [ntohl_htonl (by omega), hsize, Int.toNat_natCast]

theorem paramsLen_append {params : List (Option (List UInt8))}
    (h : ∀ value, some value ∈ params → value.length < 2 ^ 31) (rest : List UInt8) :
    paramsLen params.length (params.flatMap paramBytes ++ rest) =
      some (params.flatMap paramBytes).length :=
  Reader.extent_append
    (fun _ hparam => paramBytes_eq fun value hvalue => h value (hvalue ▸ hparam)) rest

/-- The parameters take at least four bytes each. -/
theorem length_flatMap_paramBytes (params : List (Option (List UInt8))) :
    4 * params.length ≤ (params.flatMap paramBytes).length := by
  induction params with
  | nil => exact Nat.le_refl _
  | cons param params ih =>
    have hword : 4 ≤ (paramBytes param).length := by
      cases param <;> simp [paramBytes]
    rw [List.flatMap_cons, List.length_append, List.length_cons]
    omega

theorem length_flatMap_codeBytes (codes : List UInt16) :
    (codes.flatMap codeBytes).length = 2 * codes.length := by
  induction codes with
  | nil => rfl
  | cons code codes ih =>
    rw [List.flatMap_cons, List.length_append, ih, List.length_cons, codeBytes, length_htons]
    omega

theorem memcpy_append {front : List UInt8} {n : Int} (h : (front.length : Int) = n) (rest : List UInt8) :
    memcpy n (front ++ rest) = some (front, rest) := by
  subst h
  unfold memcpy
  rw [if_neg (by omega), Int.toNat_natCast, Reader.take_append rfl]

theorem flatMap_replicate_zero (n : Nat) :
    (List.replicate n (0 : UInt16)).flatMap codeBytes = List.replicate (n * 2) 0 := by
  induction n with
  | zero => rfl
  | succ n ih =>
    rw [List.replicate_succ, List.flatMap_cons, ih, Nat.succ_mul, List.replicate_succ, List.replicate_succ]
    rfl

variable (ts) in
theorem copyFormats_append (h : m.formats.length < 2 ^ 15) (rest : List UInt8) :
    copyFormats numTsparams (htons m.formats.length ++ (m.formats.flatMap codeBytes ++ rest)) =
      some (decide (1 < m.formats.length),
        htons (appended ts numTsparams m).formats.length ++
          (appended ts numTsparams m).formats.flatMap codeBytes, rest) := by
  have hlen : ((m.formats.flatMap codeBytes).length : Int) = m.formats.length * 2 := by
    rw [length_flatMap_codeBytes]
    omega
  unfold copyFormats
  rw [Reader.take_append (length_htons m.formats.length)]
  simp only [Option.bind_eq_bind, Option.bind_some, int16_htons h, memcpy_append hlen]
  rw [ntohs_htons (by omega)]
  unfold appended
  by_cases hmany : 1 < m.formats.length
  · have hmany' : (1 : Int) < m.formats.length := by omega
    simp only [if_pos hmany', hmany, decide_true, if_true, List.length_append, List.length_replicate,
      List.flatMap_append, flatMap_replicate_zero]
  · have hmany' : ¬ (1 : Int) < m.formats.length := by omega
    simp only [if_neg hmany', hmany, decide_false, if_false]

theorem copyFormats_none {formats : List UInt16} (h : 2 ^ 15 ≤ formats.length)
    (h' : formats.length < 2 ^ 16) (rest : List UInt8) :
    copyFormats numTsparams (htons formats.length ++ (formats.flatMap codeBytes ++ rest)) = none := by
  have hneg := int16_htons_neg h h'
  unfold copyFormats
  rw [Reader.take_append (length_htons formats.length)]
  simp only [Option.bind_eq_bind, Option.bind_some]
  unfold memcpy
  rw [if_pos (by omega)]
  rfl

theorem flatten_replicate_ts :
    (List.replicate numTsparams (some ts)).flatMap paramBytes =
      (List.replicate numTsparams (htonl ts.length ++ ts)).flatten := by
  rw [List.flatMap_def, List.map_replicate]
  rfl

theorem copyParams_append (h : m.params.length < 2 ^ 15)
    (hvalues : ∀ value, some value ∈ m.params → value.length < 2 ^ 31) (rest : List UInt8) :
    copyParams ts numTsparams (htons m.params.length ++ (m.params.flatMap paramBytes ++ rest)) =
      some (htons (appended ts numTsparams m).params.length ++
        (appended ts numTsparams m).params.flatMap paramBytes, rest) := by
  unfold copyParams
  rw [Reader.take_append (length_htons m.params.length)]
  simp only [Option.bind_eq_bind, Option.bind_some, int16_htons h, Int.toNat_natCast,
    paramsLen_append hvalues, Reader.take_append rfl]
  rw [ntohs_htons (by omega)]
  unfold appended
  simp only [List.length_append, List.length_replicate, List.flatMap_append, flatten_replicate_ts]

theorem copyResults_append {codes : List UInt16} (h : codes.length < 2 ^ 16) :
    copyResults (htons codes.length ++ codes.flatMap codeBytes) =
      some (htons codes.length ++ codes.flatMap codeBytes) := by
  have hlen : (htons codes.length ++ codes.flatMap codeBytes).length = 2 + 2 * codes.length := by
    rw [List.length_append, length_htons, length_flatMap_codeBytes]
  have hall := Reader.take_append hlen []
  rw [List.append_nil] at hall
  unfold copyResults
  rw [Reader.take_append (length_htons codes.length)]
  simp only [Option.bind_eq_bind, Option.bind_some, ntohs_htons h, hall]

theorem length_copyResults_le {input results : List UInt8} (h : copyResults input = some results) :
    results.length ≤ 2 ^ 17 := by
  simp only [copyResults, Option.bind_eq_bind, Option.bind_eq_some_iff] at h
  obtain ⟨⟨word, input'⟩, hword, ⟨results', input''⟩, hresults, heq⟩ := h
  obtain rfl := Option.some.inj heq
  change results'.length ≤ 2 ^ 17
  have hlen : results'.length = 2 + 2 * ntohs word := Reader.length_of_take hresults
  obtain ⟨a, b, rfl⟩ := List.length_eq_two.mp (Reader.length_of_take hword)
  have := a.toNat_lt
  have := b.toNat_lt
  simp only [ntohs, ntohl, List.foldl_cons, List.foldl_nil] at hlen
  omega

/-! ## The whole message -/

theorem length_encode (m : BindFields) :
    (encode m).length = m.portalName.length + m.stmtName.length + 2 * m.formats.length +
      (m.params.flatMap paramBytes).length + 2 * m.resultFormats.length + 8 := by
  simp only [encode, List.length_append, List.length_cons, length_htons, length_flatMap_codeBytes]
  omega

theorem length_flatten_ts :
    ((List.replicate numTsparams (htonl ts.length ++ ts)).flatten).length =
      (ts.length + 4) * numTsparams := by
  induction numTsparams with
  | zero => rfl
  | succ n ih =>
    rw [List.replicate_succ, List.flatten_cons, List.length_append, ih, List.length_append, length_htonl,
      Nat.mul_succ]
    omega

theorem length_encode_appended :
    (encode (appended ts numTsparams m)).length = (encode m).length + (ts.length + 4) * numTsparams +
      if 1 < m.formats.length then numTsparams * 2 else 0 := by
  rw [length_encode, length_encode]
  unfold appended
  simp only [List.flatMap_append, List.length_append, flatten_replicate_ts, length_flatten_ts]
  split
  · simp only [List.length_append, List.length_replicate]
    omega
  · omega

/-- Where the parameters can be counted, the message is the one with the timestamps. -/
theorem copyMessage_encode (h : m.WellFormed) (hparams : m.params.length < 2 ^ 15) :
    copyMessage ts numTsparams (encode m) len =
      some (encode (appended ts numTsparams m),
        if decide (1 < m.formats.length) then
          int32 (int32 (len + (ts.length + 4) * numTsparams) + numTsparams * 2)
        else int32 (len + (ts.length + 4) * numTsparams)) := by
  have hformats : m.formats.length < 2 ^ 15 := by
    have := h.formats
    omega
  unfold copyMessage
  rw [encode, Reader.upTo_append h.portalName]
  simp only [Option.bind_eq_bind, Option.bind_some]
  rw [Reader.upTo_append h.stmtName]
  simp only [Option.bind_some]
  rw [copyFormats_append ts hformats]
  simp only [Option.bind_some]
  rw [copyParams_append hparams h.values]
  simp only [Option.bind_some]
  rw [copyResults_append h.resultFormats]
  simp only [Option.bind_some, encode, appended, List.append_assoc]

/-- The length that is told is that of the message if an `int` can hold it. -/
theorem len_encode : (if decide (1 < m.formats.length) then
      int32 (int32 ((encode m).length + (ts.length + 4) * numTsparams) + numTsparams * 2)
    else int32 ((encode m).length + (ts.length + 4) * numTsparams)) =
      int32 (encode (appended ts numTsparams m)).length := by
  rw [length_encode_appended]
  generalize (encode m).length = total
  by_cases hmany : 1 < m.formats.length
  · rw [if_pos (decide_eq_true hmany), if_pos hmany, int32_add]
    simp only [Int.natCast_add, Int.natCast_mul, Int.cast_ofNat_Int]
  · rw [if_neg (by simpa using hmany), if_neg hmany, Nat.add_zero]
    simp only [Int.natCast_add, Int.natCast_mul, Int.cast_ofNat_Int]

/-- Parameters whose number is taken for a negative one are not copied. -/
theorem copyParams_neg (h : 2 ^ 15 ≤ m.params.length) (h' : m.params.length < 2 ^ 16)
    (rest : List UInt8) :
    copyParams ts numTsparams (htons m.params.length ++ rest) =
      some (htons (m.params.length + numTsparams) ++
        (List.replicate numTsparams (htonl ts.length ++ ts)).flatten, rest) := by
  have hneg := int16_htons_neg h h'
  have hnone : (int16 (htons m.params.length)).toNat = 0 := by omega
  have hextent : paramsLen 0 rest = some 0 := rfl
  have hempty : Reader.take 0 rest = some ([], rest) := by
    exact Reader.take_append (n := 0) (rfl : ([] : List UInt8).length = 0) rest
  unfold copyParams
  rw [Reader.take_append (length_htons m.params.length)]
  simp only [Option.bind_eq_bind, Option.bind_some, hnone, hextent, hempty, List.nil_append]
  rw [ntohs_htons h']

/-- Then the copying fails, or something is left out. -/
theorem copyMessage_wrong (m : BindMessage) (hparams : 2 ^ 15 ≤ m.fields.params.length)
    {newMsg : List UInt8} {newLen : Int}
    (h : copyMessage ts numTsparams (encode m.fields) (encode m.fields).length = some (newMsg, newLen)) :
    newLen ≠ newMsg.length := by
  obtain ⟨m, hwf, hfits⟩ := m
  change 2 ^ 15 ≤ m.params.length at hparams
  change copyMessage ts numTsparams (encode m) (encode m).length = some (newMsg, newLen) at h
  have hlen := length_encode m
  have hlt := hwf.params
  generalize (encode m).length = total at h hlen hfits
  unfold copyMessage at h
  rw [encode, Reader.upTo_append hwf.portalName] at h
  simp only [Option.bind_eq_bind, Option.bind_some] at h
  rw [Reader.upTo_append hwf.stmtName] at h
  simp only [Option.bind_some] at h
  obtain hfew | hmany := Nat.lt_or_ge m.formats.length 2
  · rw [copyFormats_append ts (by omega)] at h
    have hsame : (appended ts numTsparams m).formats = m.formats := if_neg (by omega)
    have hone : ¬ 1 < m.formats.length := by omega
    simp only [Option.bind_some, hsame] at h
    rw [copyParams_neg hparams hlt] at h
    simp only [Option.bind_some] at h
    cases hresults : copyResults (m.params.flatMap paramBytes ++
        (htons m.resultFormats.length ++ m.resultFormats.flatMap codeBytes)) with
    | none =>
      rw [hresults] at h
      cases h
    | some results =>
      rw [hresults] at h
      simp only [Option.bind_some, Option.some.injEq, Prod.mk.injEq] at h
      obtain ⟨rfl, rfl⟩ := h
      have hshort := length_copyResults_le hresults
      have hbytes := length_flatMap_paramBytes m.params
      have hcast : ((total : Int) + (ts.length + 4) * numTsparams) =
          ((total + (ts.length + 4) * numTsparams : Nat) : Int) := by
        simp only [Int.natCast_add, Int.natCast_mul, Int.cast_ofNat_Int]
      rw [if_neg (by simpa using hone), hcast]
      refine int32_ne ?_ ?_
      · simp only [List.length_append, List.length_cons, length_htons, length_flatMap_codeBytes,
          length_flatten_ts]
        omega
      · simp only [List.length_append, List.length_cons, length_htons, length_flatMap_codeBytes,
          length_flatten_ts]
        omega
  · have hall : m.formats.length = m.params.length := by
      have := hwf.formats
      omega
    rw [copyFormats_none (by omega) (by omega)] at h
    cases h

/-! ## The formats -/

theorem format_of_many (h : 1 < m.formats.length) (i : Nat) : m.format i = m.formats.getD i 0 := by
  unfold BindFields.format
  split
  · rename_i heq
    rw [heq] at h
    cases h
  · rename_i heq
    rw [heq] at h
    exact absurd h (Nat.lt_irrefl 1)
  · rfl

theorem format_appended_of_few (h : m.formats.length ≤ 1) (i : Nat) :
    (appended ts numTsparams m).format i = m.format i := by
  have hsame : (appended ts numTsparams m).formats = m.formats := if_neg (by omega)
  unfold BindFields.format
  rw [hsame]

theorem appends_appended (h : m.WellFormed)
    (hformat : numTsparams ≠ 0 → m.formats.length = 1 → m.formats = [0]) :
    Appends ts numTsparams m (appended ts numTsparams m) := by
  refine ⟨rfl, rfl, rfl, rfl, ?_, ?_⟩
  · intro i hi
    by_cases hmany : 1 < m.formats.length
    · have hall : (appended ts numTsparams m).formats = m.formats ++ List.replicate numTsparams 0 :=
        if_pos hmany
      have hlen := h.formats.resolve_left (by omega)
      rw [format_of_many hmany, format_of_many (by rw [hall, List.length_append]; omega), hall]
      exact List.getD_append _ _ _ _ (by omega)
    · exact format_appended_of_few (by omega) i
  · intro i hle hlt
    by_cases hmany : 1 < m.formats.length
    · have hall : (appended ts numTsparams m).formats = m.formats ++ List.replicate numTsparams 0 :=
        if_pos hmany
      have hlen := h.formats.resolve_left (by omega)
      rw [format_of_many (by rw [hall, List.length_append]; omega), hall,
        List.getD_append_right _ _ _ _ (by omega)]
      exact List.getD_replicate _ (by omega)
    · rw [format_appended_of_few (by omega)]
      unfold BindFields.format
      split
      · rfl
      · rename_i code heq
        have hzero := hformat (by omega) (by rw [heq]; rfl)
        rw [heq] at hzero
        exact List.head_eq_of_cons_eq hzero
      · rename_i codes hne hne'
        have hcases : m.formats.length = 0 ∨ m.formats.length = 1 := by omega
        obtain hzero | hone := hcases
        · exact absurd (List.length_eq_zero_iff.mp hzero) hne
        · obtain ⟨code, heq⟩ := List.length_eq_one_iff.mp hone
          exact absurd heq (hne' code)

theorem wellFormed_appended (h : m.WellFormed) (hall : m.params.length + numTsparams < 2 ^ 16)
    (hfits : (encode (appended ts numTsparams m)).length < 2 ^ 31) :
    (appended ts numTsparams m).WellFormed where
  portalName := h.portalName
  stmtName := h.stmtName
  resultFormats := h.resultFormats
  params := by
    change (m.params ++ List.replicate numTsparams (some ts)).length < 2 ^ 16
    rw [List.length_append, List.length_replicate]
    exact hall
  formats := by
    have hformats := h.formats
    unfold appended
    simp only [List.length_append, List.length_replicate]
    split
    · rw [List.length_append, List.length_replicate]
      omega
    · omega
  values := by
    intro value hvalue
    obtain hold | hnew := List.mem_append.mp hvalue
    · exact h.values value hold
    · obtain ⟨hne, heq⟩ := List.mem_replicate.mp hnew
      obtain rfl := Option.some.inj heq
      rw [length_encode_appended] at hfits
      have hle : value.length + 4 ≤ (value.length + 4) * numTsparams :=
        Nat.le_mul_of_pos_right _ (by omega)
      omega

/-- `bind_rewrite_timestamp` is exact precisely if the parameters can be counted by a `short`, all of
them by two bytes, no single format code applies to the timestamps as well, and the length fits. -/
theorem bindRewriteTimestamp_exact_iff (ts : List UInt8) (numTsparams : Nat) (m : BindMessage) :
    Exact ts numTsparams m.fields
        (bindRewriteTimestamp (some ts) numTsparams (encode m.fields) (encode m.fields).length) ↔
      Appendable ts numTsparams m.fields := by
  have hwf := m.wellFormed
  constructor
  · intro ⟨newMsg, m', hresult, hdecode, happends⟩
    have hcopy : copyMessage ts numTsparams (encode m.fields) (encode m.fields).length =
        some (newMsg, (newMsg.length : Int)) := by
      unfold bindRewriteTimestamp at hresult
      simp only at hresult
      split at hresult
      · cases hresult
      · rename_i msg newLen hcopy
        obtain ⟨rfl, rfl⟩ := Rewritten.message.inj hresult
        exact hcopy
    have hparams : m.fields.params.length < 2 ^ 15 := by
      by_contra hmany
      exact copyMessage_wrong m (Nat.le_of_not_lt hmany) hcopy rfl
    rw [copyMessage_encode hwf hparams, len_encode] at hcopy
    obtain ⟨rfl, hlen⟩ := Prod.mk.inj (Option.some.inj hcopy)
    have hfits := int32_natCast_iff.mp hlen
    have hall : m.fields.params.length + numTsparams < 2 ^ 16 := by
      have hlt := length_params_of_decode hdecode
      rw [happends.params, List.length_append, List.length_replicate] at hlt
      exact hlt
    refine ⟨hparams, hall, fun hne hone => ?_, hfits⟩
    obtain rfl : appended ts numTsparams m.fields = m' :=
      Option.some.inj ((decode_encode (wellFormed_appended hwf hall hfits)).symm.trans hdecode)
    have hzero := happends.added m.fields.params.length (Nat.le_refl _) (by omega)
    rw [format_appended_of_few (Nat.le_of_eq hone)] at hzero
    obtain ⟨code, heq⟩ := List.length_eq_one_iff.mp hone
    unfold BindFields.format at hzero
    rw [heq] at hzero
    rw [heq]
    exact congrArg (fun code => [code]) hzero
  · intro h
    refine ⟨encode (appended ts numTsparams m.fields), _, ?_,
      decode_encode (wellFormed_appended hwf h.all h.fits), appends_appended hwf h.format⟩
    have hlen := int32_natCast_iff.mpr h.fits
    unfold bindRewriteTimestamp
    simp only [copyMessage_encode hwf h.params, len_encode, hlen]

/-- One parameter in binary format, by a format code of its own. -/
def binaryMessage : BindMessage where
  fields := ⟨[], [], [1], [some [7]], []⟩
  wellFormed := ⟨by decide, by decide, by decide, by decide, by decide, by
    intro value hvalue
    obtain rfl : value = [7] := by simpa using hvalue
    decide⟩
  fits := by decide

theorem not_exact_binaryMessage :
    ¬ ∀ (ts : List UInt8) (numTsparams : Nat) (m : BindMessage), Exact ts numTsparams m.fields
      (bindRewriteTimestamp (some ts) numTsparams (encode m.fields) (encode m.fields).length) := by
  intro h
  obtain ⟨newMsg, m', hresult, hdecode, happends⟩ := h [50] 1 binaryMessage
  have hcopy : copyMessage [50] 1 (encode binaryMessage.fields) (encode binaryMessage.fields).length =
      some (encode ⟨[], [], [1], [some [7], some [50]], []⟩, 20) := by
    decide
  unfold bindRewriteTimestamp at hresult
  simp only [hcopy, Rewritten.message.injEq] at hresult
  obtain ⟨rfl, -⟩ := hresult
  have hread : decode (encode ⟨[], [], [1], [some [7], some [50]], []⟩) =
      some ⟨[], [], [1], [some [7], some [50]], []⟩ := by
    decide
  obtain rfl := Option.some.inj (hdecode.symm.trans hread)
  exact absurd (happends.added 1 (by decide) (by decide)) (by decide)

end PgPool.Bind
