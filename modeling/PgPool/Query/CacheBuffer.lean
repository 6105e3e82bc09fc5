import Mathlib.Data.Nat.Log
import PgPool.Lib.Buffer
import PgPool.Stream.Words

/-!
# The buffer of the query cache

`pool_query_cache_register` collects the messages of a result in a buffer that `write_cache` enlarges on
demand, and stores the buffer in the SystemDB, from where it is replayed.
-/

namespace PgPool.QueryCache

open Words

/-- `DEFAULT_CACHE_SIZE`. -/
def defaultCacheSize : Nat := 8192

/-- The part of `QueryCacheInfo` that `write_cache` uses. -/
structure QueryCacheInfo where
  cache : Buffer
  cacheSize : Int
  cacheOffset : Int

/-- `query_cache_info`. -/
inductive CacheState where
  | null
  | info (info : QueryCacheInfo)
  /-- Bytes have been written beyond the buffer or through a null pointer. -/
  | crashed

/-- `init_query_cache_info`; `malloc` succeeds. -/
def initQueryCacheInfo (fresh : Nat → UInt8) : CacheState :=
  .info ⟨⟨defaultCacheSize, fresh⟩, defaultCacheSize, 0⟩

/-- `memcpy` behind the bytes that are there. -/
def appendBytes (buf : List UInt8) (i : QueryCacheInfo) : CacheState :=
  if i.cacheOffset + buf.length ≤ i.cache.size then
    .info { i with
      cache := i.cache.write i.cacheOffset.toNat buf
      cacheOffset := int32 (i.cacheOffset + buf.length) }
  else .crashed

/-- `write_cache` of a whole block.  `realloc` refuses what is negative as an `int`; then
`malloc_failed` frees the buffer. -/
def writeCache (fresh : Nat → UInt8) (buf : List UInt8) : CacheState → CacheState
  | .null | .crashed => .crashed
  | .info i =>
    let requiredLen := int32 (i.cacheOffset + buf.length)
    if i.cacheSize < requiredLen then
      let requiredLen := int32 (i.cacheSize * 2)
      if requiredLen < 0 then .null
      else
        appendBytes buf
          { i with cache := i.cache.realloc fresh requiredLen.toNat, cacheSize := requiredLen }
    else appendBytes buf i

/-- The calls of `write_cache` for a message: the kind, the length and the body. -/
def pieces (m : WireMessage) : List (List UInt8) := [[m.kind], m.word, m.contents]

def writeAll (fresh : Nat → UInt8) (calls : List (List UInt8)) (s : CacheState) : CacheState :=
  calls.foldl (fun s buf => writeCache fresh buf s) s

/-- `pool_query_cache_register`, and the value that goes to the SystemDB.  The kinds other than `T`, `D`
and `C` do not get here with a buffer. -/
def register (fresh : Nat → UInt8) (m : WireMessage) (s : CacheState) :
    CacheState × Option (List UInt8) :=
  if m.kind = 84 then
    match s with
    | .null => (writeAll fresh (pieces m) (initQueryCacheInfo fresh), none)
    -- received RowDescription in the wrong order
    | .info _ => (.null, none)
    | .crashed => (.crashed, none)
  else if m.kind = 68 then
    match s with
    | .null => (.null, none)
    | s => (writeAll fresh (pieces m) s, none)
  else
    match s with
    | .null => (.null, none)
    | s =>
      match writeAll fresh (pieces m) s with
      | .info i => (.null, some (i.cache.read 0 i.cacheOffset.toNat))
      | _ => (.crashed, none)

/-- The messages of a result, as they come in. -/
def registerAll (fresh : Nat → UInt8) : List WireMessage → CacheState → CacheState × Option (List UInt8)
  | [], s => (s, none)
  | m :: messages, s =>
    match register fresh m s with
    | (s, some value) => (s, some value)
    | (s, none) => registerAll fresh messages s

/-- `ReadyForQuery`. -/
def readyForQuery (tstate : UInt8) : List UInt8 := 90 :: (htonl 5 ++ [tstate])

/-- `ForwardCacheToFrontend`: the bytes behind `PQunescapeBytea`, and the transaction status. -/
def forwardCacheToFrontend (binaryCache : List UInt8) (tstate : UInt8) : List UInt8 :=
  binaryCache ++ readyForQuery tstate

/-- The same message as it goes to the frontend when the query is executed: `SimpleForwardToFrontend`. -/
def simpleForward (m : WireMessage) : List UInt8 := m.kind :: (htonl (m.contents.length + 4) ++ m.contents)

/-! ## Results -/

/-- The body of a message, whose size fits into the length word. -/
structure Body where
  bytes : List UInt8
  fits : bytes.length + 4 < 2 ^ 31

def Body.message (kind : UInt8) (b : Body) : WireMessage := ⟨kind, b.bytes, b.fits⟩

/-- A RowDescription, DataRows and a CommandComplete. -/
structure QueryResult where
  rowDescription : Body
  dataRows : List Body
  commandComplete : Body

/-- The messages that are not the last one. -/
def QueryResult.front (r : QueryResult) : List WireMessage :=
  r.rowDescription.message 84 :: r.dataRows.map (Body.message 68)

def QueryResult.messages (r : QueryResult) : List WireMessage :=
  r.front ++ [r.commandComplete.message 67]

/-- The calls of `write_cache` for a result. -/
def QueryResult.calls (r : QueryResult) : List (List UInt8) := r.messages.flatMap pieces

/-- The buffer has the bytes, in the bounds that are told. -/
structure Holds (i : QueryCacheInfo) (written : List UInt8) : Prop where
  offset : i.cacheOffset = written.length
  inside : i.cacheOffset ≤ i.cacheSize
  size : i.cacheSize = i.cache.size
  bytes : i.cache.read 0 i.cacheOffset.toNat = written

/-- After each call the buffer has what has been written; and the value that is stored is replayed as the
result was sent when the query was executed. -/
structure Faithful (fresh : Nat → UInt8) (r : QueryResult) : Prop where
  held : ∀ k, ∃ i, writeAll fresh (r.calls.take k) (initQueryCacheInfo fresh) = .info i ∧
    Holds i (r.calls.take k).flatten
  replayed : ∃ value, registerAll fresh r.messages .null = (.null, some value) ∧
    ∀ tstate, forwardCacheToFrontend value tstate =
      r.messages.flatMap simpleForward ++ readyForQuery tstate

/-! ## The condition -/

/-- The size of a buffer that has been doubled until it has room for `n` bytes. -/
def capacity (n : Nat) : Nat := max defaultCacheSize (2 ^ Nat.clog 2 n)

/-- The bytes of a call do not need more than one doubling, nor a size that is no `int`. -/
def Fits (off len : Nat) : Prop := off + len ≤ 2 * capacity off ∧ off + len ≤ 2 ^ 30

/-- No body is longer than what twice the buffer's size leaves for it, and the result is not longer than
the largest power of two that is an `int`. -/
structure Roomy (r : QueryResult) : Prop where
  bodies : ∀ before m after, r.messages = before ++ m :: after →
    (wire before).length + 5 + m.contents.length ≤ 2 * capacity ((wire before).length + 5)
  total : (wire r.messages).length ≤ 2 ^ 30

/-! ## Sizes -/

theorem capacity_eq (n : Nat) : capacity n = 2 ^ max 13 (Nat.clog 2 n) := by
  have hdefault : defaultCacheSize = 2 ^ 13 := by decide
  unfold capacity
  rw [hdefault]
  obtain hle | hle := Nat.le_total 13 (Nat.clog 2 n)
  · rw [Nat.max_eq_right hle, Nat.max_eq_right (Nat.pow_le_pow_right (by omega) hle)]
  · rw [Nat.max_eq_left hle, Nat.max_eq_left (Nat.pow_le_pow_right (by omega) hle)]

theorem le_capacity (n : Nat) : n ≤ capacity n :=
  Nat.le_trans (Nat.le_pow_clog (by omega) n) (Nat.le_max_right _ _)

theorem default_le_capacity (n : Nat) : 8192 ≤ capacity n := Nat.le_max_left _ _

theorem capacity_of_le {off n : Nat} (h : off ≤ n) (h' : n ≤ capacity off) :
    capacity n = capacity off := by
  rw [capacity_eq] at h' ⊢
  rw [capacity_eq]
  have hup : Nat.clog 2 n ≤ max 13 (Nat.clog 2 off) := (Nat.clog_le_iff_le_pow (by omega)).mpr h'
  have hdown : Nat.clog 2 off ≤ Nat.clog 2 n := Nat.clog_mono_right 2 h
  congr 1
  omega

theorem capacity_of_lt {off n : Nat} (h : capacity off < n) (h' : n ≤ 2 * capacity off) :
    capacity n = 2 * capacity off := by
  rw [capacity_eq] at h h' ⊢
  rw [capacity_eq, ← Nat.pow_succ']
  rw [← Nat.pow_succ'] at h'
  have hup : Nat.clog 2 n ≤ max 13 (Nat.clog 2 off) + 1 := (Nat.clog_le_iff_le_pow (by omega)).mpr h'
  have hlow : ¬ Nat.clog 2 n ≤ max 13 (Nat.clog 2 off) := fun hle =>
    absurd ((Nat.clog_le_iff_le_pow (by omega)).mp hle) (by omega)
  congr 1
  omega

theorem capacity_cases {n : Nat} (h : n ≤ 2 ^ 30) : capacity n ≤ 2 ^ 29 ∨ capacity n = 2 ^ 30 := by
  have hle : Nat.clog 2 n ≤ 30 := (Nat.clog_le_iff_le_pow (by omega)).mpr h
  rw [capacity_eq]
  obtain hlt | heq := Nat.lt_or_eq_of_le hle
  · exact .inl (Nat.pow_le_pow_right (by omega) (by omega))
  · exact .inr (by rw [heq]; rfl)

theorem capacity_le {n : Nat} (h : n ≤ 2 ^ 30) : capacity n ≤ 2 ^ 30 := by
  have := capacity_cases h
  omega

/-! ## Calls -/

section

variable {fresh : Nat → UInt8} {i : QueryCacheInfo} {written buf : List UInt8}

/-- The buffer has the bytes, and it has been doubled no more than these need. -/
structure Doubled (i : QueryCacheInfo) (written : List UInt8) : Prop extends Holds i written where
  capacity : i.cacheSize = capacity written.length
  total : written.length ≤ 2 ^ 30

theorem doubled_init (fresh : Nat → UInt8) :
    Doubled ⟨⟨defaultCacheSize, fresh⟩, defaultCacheSize, 0⟩ [] where
  offset := rfl
  inside := (by decide : (0 : Int) ≤ defaultCacheSize)
  size := rfl
  bytes := rfl
  capacity := (by decide : (defaultCacheSize : Int) = capacity 0)
  total := by decide

/-- The bytes are appended if there is room for them. -/
theorem holds_appendBytes (buf : List UInt8) (h : Holds i written)
    (hroom : written.length + buf.length ≤ i.cache.size)
    (htotal : written.length + buf.length < 2 ^ 31) :
    ∃ i', appendBytes buf i = .info i' ∧ Holds i' (written ++ buf) ∧ i'.cacheSize = i.cacheSize := by
  have hoff : i.cacheOffset.toNat = written.length := by
    rw [h.offset]
    exact Int.toNat_natCast _
  have hnext : int32 (i.cacheOffset + buf.length) = ((written ++ buf).length : Nat) := by
    rw [h.offset, List.length_append, ← Int.natCast_add]
    exact int32_natCast_iff.mpr htotal
  have hread := h.bytes
  rw [hoff] at hread
  refine ⟨_, if_pos (by rw [h.offset]; omega), ⟨hnext, ?_, h.size, ?_⟩, rfl⟩
  · change int32 (i.cacheOffset + buf.length) ≤ i.cacheSize
    rw [hnext, h.size, List.length_append]
    omega
  · change (i.cache.write i.cacheOffset.toNat buf).read 0 (int32 (i.cacheOffset + buf.length)).toNat = _
    rw [hnext, hoff, Int.toNat_natCast, List.length_append, Buffer.read_add, Nat.zero_add,
      Buffer.read_write, Buffer.read_write_before (by omega), hread]

theorem appendBytes_crashed (buf : List UInt8) (h : Holds i written)
    (hroom : i.cache.size < written.length + buf.length) :
    appendBytes buf i = .crashed := by
  unfold appendBytes
  rw [if_neg]
  rw [h.offset]
  omega

variable (fresh) in
/-- The larger buffer has the bytes as well. -/
theorem holds_realloc (size : Nat) (h : Holds i written) (hsize : i.cache.size ≤ size) :
    Holds { i with cache := i.cache.realloc fresh size, cacheSize := size } written := by
  have hin := h.inside
  rw [h.size, h.offset] at hin
  have hoff : i.cacheOffset.toNat = written.length := by
    rw [h.offset]
    exact Int.toNat_natCast _
  refine ⟨h.offset, ?_, rfl, ?_⟩
  · change i.cacheOffset ≤ size
    rw [h.offset]
    omega
  · change (i.cache.realloc fresh size).read 0 i.cacheOffset.toNat = written
    rw [hoff, Buffer.read_realloc (by omega) (by omega), ← hoff]
    exact h.bytes

variable (fresh) in
/-- A call whose bytes fit keeps the buffer right. -/
theorem doubled_writeCache (h : Doubled i written) (hfits : Fits written.length buf.length) :
    ∃ i', writeCache fresh buf (.info i) = .info i' ∧ Doubled i' (written ++ buf) := by
  obtain ⟨hdouble, htotal⟩ := hfits
  have hcap := capacity_le h.total
  have hsize : i.cache.size = capacity written.length := by
    have hone := h.size
    rw [h.capacity] at hone
    omega
  have hnext : int32 (i.cacheOffset + buf.length) = ((written.length + buf.length : Nat) : Int) := by
    rw [h.offset, ← Int.natCast_add]
    exact int32_natCast_iff.mpr (by omega)
  unfold writeCache
  simp only [hnext]
  by_cases hgrow : i.cacheSize < ((written.length + buf.length : Nat) : Int)
  · rw [h.capacity] at hgrow
    have hgrow' : capacity written.length < written.length + buf.length := by omega
    have hnew := capacity_of_lt hgrow' hdouble
    have hle : capacity (written.length + buf.length) ≤ 2 ^ 30 := capacity_le htotal
    have hlen : int32 (i.cacheSize * 2) = ((2 * capacity written.length : Nat) : Int) := by
      rw [h.capacity, show ((capacity written.length : Int) * 2) =
        ((2 * capacity written.length : Nat) : Int) by omega]
      exact int32_natCast_iff.mpr (by omega)
    rw [if_pos (by rw [h.capacity]; exact hgrow), hlen, if_neg (by omega), Int.toNat_natCast]
    obtain ⟨i', happ, hholds, hkeep⟩ := holds_appendBytes buf
      (holds_realloc fresh (2 * capacity written.length) h.toHolds (by omega))
      (by change _ ≤ 2 * capacity written.length; exact hdouble) (by omega)
    refine ⟨i', happ, hholds, ?_, ?_⟩
    · rw [hkeep, List.length_append, hnew]
    · rw [List.length_append]
      exact htotal
  · rw [if_neg hgrow]
    rw [h.capacity] at hgrow
    obtain ⟨i', happ, hholds, hkeep⟩ := holds_appendBytes buf h.toHolds (by omega) (by omega)
    refine ⟨i', happ, hholds, ?_, ?_⟩
    · rw [hkeep, h.capacity, List.length_append, capacity_of_le (Nat.le_add_right _ _) (by omega)]
    · rw [List.length_append]
      exact htotal

/-- A call whose bytes do not fit ends without a buffer. -/
theorem writeCache_of_not_fits (h : Doubled i written) (hlen : buf.length < 2 ^ 31)
    (hfits : ¬ Fits written.length buf.length) (i' : QueryCacheInfo) :
    writeCache fresh buf (.info i) ≠ .info i' := by
  have htotal := h.total
  have hcap := capacity_le h.total
  have hpos := default_le_capacity written.length
  have hsize : i.cache.size = capacity written.length := by
    have hone := h.size
    rw [h.capacity] at hone
    omega
  unfold writeCache
  by_cases hint : written.length + buf.length < 2 ^ 31
  · have hnext : int32 (i.cacheOffset + buf.length) = ((written.length + buf.length : Nat) : Int) := by
      rw [h.offset, ← Int.natCast_add]
      exact int32_natCast_iff.mpr hint
    unfold Fits at hfits
    simp only [hnext]
    rw [if_pos (by rw [h.capacity]; omega)]
    obtain hsmall | hbig := capacity_cases htotal
    · have hdouble : int32 (i.cacheSize * 2) = ((2 * capacity written.length : Nat) : Int) := by
        rw [h.capacity, show ((capacity written.length : Int) * 2) =
          ((2 * capacity written.length : Nat) : Int) by omega]
        exact int32_natCast_iff.mpr (by omega)
      have hcrash := appendBytes_crashed buf
        (holds_realloc fresh (2 * capacity written.length) h.toHolds (by omega))
        (by change 2 * capacity written.length < _; omega)
      rw [hdouble, if_neg (by omega), Int.toNat_natCast, hcrash]
      exact CacheState.noConfusion
    · -- twice the size is no `int`
      have hdouble : int32 (i.cacheSize * 2) = -2 ^ 31 := by
        rw [h.capacity, hbig]
        decide
      rw [hdouble, if_pos (by decide)]
      exact CacheState.noConfusion
  · -- the sum is taken for a negative number
    have hnext : int32 (i.cacheOffset + buf.length) < 0 := by
      rw [h.offset]
      unfold int32
      rw [Int.bmod_def, if_neg (by omega)]
      omega
    simp only
    rw [if_neg (by rw [h.capacity]; omega), appendBytes_crashed buf h.toHolds (by omega)]
    exact CacheState.noConfusion

/-! ## Whole results -/

/-- The bytes of each call fit, the first of them behind `off` bytes. -/
def AllFit (off : Nat) : List (List UInt8) → Prop
  | [] => True
  | buf :: calls => Fits off buf.length ∧ AllFit (off + buf.length) calls

theorem allFit_append {off : Nat} (calls more : List (List UInt8)) :
    AllFit off (calls ++ more) ↔ AllFit off calls ∧ AllFit (off + calls.flatten.length) more := by
  induction calls generalizing off with
  | nil => simp [AllFit]
  | cons buf calls ih =>
    rw [List.cons_append, AllFit, AllFit, ih, List.flatten_cons, List.length_append, Nat.add_assoc, and_assoc]

variable (fresh) in
/-- Where the bytes of each call fit, the buffer stays right. -/
theorem doubled_writeAll {calls : List (List UInt8)} (h : Doubled i written)
    (hfits : AllFit written.length calls) :
    ∃ i', writeAll fresh calls (.info i) = .info i' ∧ Doubled i' (written ++ calls.flatten) := by
  induction calls generalizing i written with
  | nil => exact ⟨i, rfl, by rwa [List.flatten_nil, List.append_nil]⟩
  | cons buf calls ih =>
    obtain ⟨i', hwrite, hdoubled⟩ := doubled_writeCache fresh h hfits.1
    obtain ⟨i'', hall, hlast⟩ := ih hdoubled (by rw [List.length_append]; exact hfits.2)
    refine ⟨i'', ?_, by rwa [List.flatten_cons, ← List.append_assoc]⟩
    change writeAll fresh calls (writeCache fresh buf (.info i)) = _
    rw [hwrite, hall]

variable (fresh) in
/-- Where there is a buffer after each call, the bytes of each have fitted. -/
theorem allFit_of_writeAll {calls : List (List UInt8)} (h : Doubled i written)
    (hlen : ∀ buf ∈ calls, buf.length < 2 ^ 31)
    (hheld : ∀ k, ∃ i', writeAll fresh (calls.take k) (.info i) = .info i') :
    AllFit written.length calls := by
  induction calls generalizing i written with
  | nil => trivial
  | cons buf calls ih =>
    have hfits : Fits written.length buf.length := by
      by_contra hnot
      obtain ⟨i', hone⟩ := hheld 1
      exact writeCache_of_not_fits h (hlen buf List.mem_cons_self) hnot i' hone
    obtain ⟨i', hwrite, hdoubled⟩ := doubled_writeCache fresh h hfits
    refine ⟨hfits, ?_⟩
    rw [← List.length_append]
    refine ih hdoubled (fun buf hbuf => hlen buf (List.mem_cons_of_mem _ hbuf)) fun k => ?_
    obtain ⟨i'', hmore⟩ := hheld (k + 1)
    change writeAll fresh (calls.take k) (writeCache fresh buf (.info i)) = _ at hmore
    rw [hwrite] at hmore
    exact ⟨i'', hmore⟩

theorem flatten_pieces (m : WireMessage) : (pieces m).flatten = m.bytes := by
  simp [pieces, WireMessage.bytes, WireMessage.body]

theorem flatten_flatMap_pieces (messages : List WireMessage) :
    (messages.flatMap pieces).flatten = wire messages := by
  induction messages with
  | nil => rfl
  | cons m messages ih =>
    rw [List.flatMap_cons, List.flatten_append, ih, flatten_pieces]
    rfl

theorem length_bytes (m : WireMessage) : m.bytes.length = 5 + m.contents.length := by
  simp only [WireMessage.bytes, WireMessage.body, List.length_cons, List.length_append,
    WireMessage.length_word]
  omega

/-- The kind and the length of a message always fit. -/
theorem allFit_pieces {off : Nat} (h : off ≤ 2 ^ 30) (m : WireMessage) :
    AllFit off (pieces m) ↔ off + 5 + m.contents.length ≤ 2 * capacity (off + 5) ∧
      off + m.bytes.length ≤ 2 ^ 30 := by
  have hlow := le_capacity off
  have hlow' := le_capacity (off + 1)
  have hpos := default_le_capacity off
  have hpos' := default_le_capacity (off + 1)
  simp only [pieces, AllFit, Fits, List.length_cons, List.length_nil, WireMessage.length_word, and_true,
    length_bytes, Nat.zero_add, Nat.add_assoc, Nat.reduceAdd]
  omega

theorem allFit_iff {off : Nat} (messages : List WireMessage) (h : off ≤ 2 ^ 30) :
    AllFit off (messages.flatMap pieces) ↔
      (∀ before m after, messages = before ++ m :: after →
        off + (wire before).length + 5 + m.contents.length ≤
          2 * capacity (off + (wire before).length + 5)) ∧
      off + (wire messages).length ≤ 2 ^ 30 := by
  induction messages generalizing off with
  | nil =>
    refine ⟨fun _ => ⟨fun before m after heq => ?_, by simpa using h⟩, fun _ => trivial⟩
    cases before <;> cases heq
  | cons m messages ih =>
    rw [List.flatMap_cons, allFit_append, flatten_pieces, allFit_pieces h]
    constructor
    · intro ⟨⟨hbody, htotal⟩, hrest⟩
      obtain ⟨hbodies, hall⟩ := (ih htotal).mp hrest
      refine ⟨fun before m' after heq => ?_, by rwa [wire_cons, List.length_append, ← Nat.add_assoc]⟩
      cases before with
      | nil =>
        obtain ⟨rfl, rfl⟩ := List.cons.inj heq
        exact hbody
      | cons m'' before =>
        obtain ⟨rfl, rfl⟩ := List.cons.inj heq
        rw [wire_cons, List.length_append, ← Nat.add_assoc]
        exact hbodies before m' after rfl
    · intro ⟨hbodies, hall⟩
      rw [wire_cons, List.length_append, ← Nat.add_assoc] at hall
      have htotal : off + m.bytes.length ≤ 2 ^ 30 := by omega
      refine ⟨⟨hbodies [] m messages rfl, htotal⟩, (ih htotal).mpr ⟨fun before m' after heq => ?_, hall⟩⟩
      have hone := hbodies (m :: before) m' after (by rw [heq, List.cons_append])
      rwa [wire_cons, List.length_append, ← Nat.add_assoc] at hone

theorem roomy_iff_allFit (r : QueryResult) : Roomy r ↔ AllFit 0 r.calls := by
  unfold QueryResult.calls
  rw [allFit_iff r.messages (Nat.zero_le _)]
  simp only [Nat.zero_add]
  exact ⟨fun h => ⟨h.bodies, h.total⟩, fun h => ⟨h.1, h.2⟩⟩

variable (fresh) in
/-- The DataRows go into the buffer one after the other. -/
theorem registerAll_dataRows (rows : List Body) (last : WireMessage) (h : Doubled i written)
    (hfits : AllFit written.length ((rows.map (Body.message 68)).flatMap pieces)) :
    ∃ i', Doubled i' (written ++ wire (rows.map (Body.message 68))) ∧
      registerAll fresh (rows.map (Body.message 68) ++ [last]) (.info i) =
        registerAll fresh [last] (.info i') := by
  induction rows generalizing i written with
  | nil => exact ⟨i, by rwa [List.map_nil, wire_nil, List.append_nil], rfl⟩
  | cons row rows ih =>
    rw [List.map_cons, List.flatMap_cons, allFit_append, flatten_pieces] at hfits
    obtain ⟨i', hwrite, hdoubled⟩ := doubled_writeAll fresh h hfits.1
    rw [flatten_pieces] at hdoubled
    obtain ⟨i'', hlast, hall⟩ := ih hdoubled (by rw [List.length_append]; exact hfits.2)
    refine ⟨i'', by rwa [List.map_cons, wire_cons, ← List.append_assoc], ?_⟩
    have hone : register fresh (row.message 68) (.info i) = (.info i', none) := by
      change (writeAll fresh (pieces (row.message 68)) (.info i), none) = _
      rw [hwrite]
    rw [List.map_cons, List.cons_append, registerAll, hone]
    exact hall

/-- The value that is stored is the concatenation of the messages. -/
theorem registerAll_messages (r : QueryResult) (hfits : AllFit 0 r.calls) :
    registerAll fresh r.messages .null = (.null, some (wire r.messages)) := by
  unfold QueryResult.calls QueryResult.messages QueryResult.front at hfits
  rw [List.cons_append, List.flatMap_cons, allFit_append, flatten_pieces, List.flatMap_append,
    allFit_append, flatten_flatMap_pieces] at hfits
  obtain ⟨hfirst, hrows, hlast⟩ := hfits
  obtain ⟨i, hwrite, hdoubled⟩ := doubled_writeAll fresh (doubled_init fresh) hfirst
  rw [flatten_pieces, List.nil_append] at hdoubled
  rw [Nat.zero_add] at hrows hlast
  obtain ⟨i', hdoubled', hall⟩ :=
    registerAll_dataRows fresh r.dataRows (r.commandComplete.message 67) hdoubled hrows
  rw [← List.length_append] at hlast
  rw [List.flatMap_singleton] at hlast
  obtain ⟨i'', hwrite', hdoubled''⟩ := doubled_writeAll fresh hdoubled' hlast
  rw [flatten_pieces] at hdoubled''
  have hone : register fresh (r.rowDescription.message 84) .null = (.info i, none) := by
    change (writeAll fresh (pieces (r.rowDescription.message 84)) (initQueryCacheInfo fresh), none) = _
    rw [← hwrite]
    rfl
  have hend : register fresh (r.commandComplete.message 67) (.info i') =
      (.null, some (i''.cache.read 0 i''.cacheOffset.toNat)) := by
    change (match writeAll fresh (pieces (r.commandComplete.message 67)) (.info i') with
      | .info i => (CacheState.null, some (i.cache.read 0 i.cacheOffset.toNat))
      | _ => (CacheState.crashed, none)) = _
    rw [hwrite']
  unfold QueryResult.messages QueryResult.front
  rw [List.cons_append, registerAll, hone]
  simp only
  rw [hall, registerAll, hend]
  simp only
  rw [hdoubled''.bytes, wire_cons]
  simp [wire]

theorem length_lt_of_mem_calls (r : QueryResult) : ∀ buf ∈ r.calls, buf.length < 2 ^ 31 := by
  intro buf hbuf
  obtain ⟨m, -, hpiece⟩ := List.mem_flatMap.mp hbuf
  have hfits := m.fits
  simp only [pieces, List.mem_cons, List.not_mem_nil, or_false] at hpiece
  obtain rfl | rfl | rfl := hpiece
  · exact Nat.lt_of_le_of_lt (Nat.le_refl 1) (by omega)
  · rw [WireMessage.length_word]
    omega
  · omega

theorem allFit_of_faithful {r : QueryResult} (h : Faithful fresh r) : AllFit 0 r.calls := by
  refine allFit_of_writeAll fresh (doubled_init fresh) (length_lt_of_mem_calls r) fun k => ?_
  obtain ⟨i, hwrite, -⟩ := h.held k
  exact ⟨i, hwrite⟩

/-- The calls of `write_cache` are faithful precisely if no body needs more than one doubling and no size
is too large. -/
theorem writeCache_faithful_iff (fresh : Nat → UInt8) (r : QueryResult) : Faithful fresh r ↔ Roomy r := by
  rw [roomy_iff_allFit]
  constructor
  · exact allFit_of_faithful
  · intro h
    refine ⟨fun k => ?_, wire r.messages, registerAll_messages r h, fun tstate => rfl⟩
    have htake : AllFit 0 (r.calls.take k) := by
      rw [← List.take_append_drop k r.calls, allFit_append] at h
      exact h.1
    obtain ⟨i, hwrite, hdoubled⟩ := doubled_writeAll fresh (doubled_init fresh) htake
    exact ⟨i, hwrite, hdoubled.toHolds⟩

end

/-- A column `a` of type `text`. -/
def textColumn : Body where
  bytes := htons 1 ++ ([97, 0] ++ (htonl 0 ++ (htons 0 ++ (htonl 25 ++
    (htons (2 ^ 16 - 1) ++ (htonl (2 ^ 32 - 1) ++ htons 0))))))
  fits := by decide

/-- A DataRow with one value of `n` bytes. -/
def textRow (n : Nat) (h : n < 2 ^ 16) : Body where
  bytes := htons 1 ++ (htonl n ++ List.replicate n 97)
  fits := by
    rw [List.length_append, List.length_append, List.length_replicate, length_htons, length_htonl]
    omega

theorem fits_selectOne : ([83, 69, 76, 69, 67, 84, 32, 49, 0] : List UInt8).length + 4 < 2 ^ 31 := by decide

/-- `SELECT 1` as a command tag, with its terminator. -/
def selectOne : Body := ⟨[83, 69, 76, 69, 67, 84, 32, 49, 0], fits_selectOne⟩

/-- One row, with a value of 20000 bytes. -/
def longRow : QueryResult := ⟨textColumn, [textRow 20000 (by decide)], selectOne⟩

theorem not_faithful_longRow : ¬ ∀ (fresh : Nat → UInt8) (r : QueryResult), Faithful fresh r := by
  intro h
  have hroomy := (roomy_iff_allFit longRow).mpr (allFit_of_faithful (h (fun _ => 0) longRow))
  have hbody := hroomy.bodies [textColumn.message 84] ((textRow 20000 (by decide)).message 68)
    [selectOne.message 67] rfl
  have hwire : (wire [textColumn.message 84]).length = 27 := by decide
  have hlen : ((textRow 20000 (by decide)).message 68).contents.length = 20006 := by
    change (htons 1 ++ (htonl 20000 ++ List.replicate 20000 97)).length = 20006
    rw [List.length_append, List.length_append, List.length_replicate, length_htons, length_htonl]
  have hcap : capacity (27 + 5) = 8192 := by decide
  rw [hwire, hlen, hcap] at hbody
  omega

end PgPool.QueryCache
