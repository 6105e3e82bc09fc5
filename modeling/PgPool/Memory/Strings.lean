import PgPool.Memory.Frame

/-!
# The string library

`String` is a buffer that grows with what is appended to it, in steps of `STRING_SIZE` bytes, from the pool of
the parser.  Every rewritten query is written to one.
-/

namespace PgPool

/-! ## Memory -/

/-- `STRING_SIZE`. -/
def stringSize : Nat := 128

/-- `sizeof(String)`, two ints and a pointer. -/
def sizeofString : Nat := 16

/-- A string of C, without its NUL. -/
structure CStr where
  bytes : List UInt8
  noNul : 0 ∉ bytes

/-- `String`, and the chunk that it is in. -/
structure Builder where
  self : Chunk
  size : Nat
  len : Nat
  data : Chunk
  deriving DecidableEq, Repr

/-- The `char *` that is appended: a string of the caller's, or the data of a `String`. -/
inductive Source where
  | text (str : CStr)
  | data (chunk : Chunk)

/-- `strlen` of what is in front of a bound. -/
def strlenFrom (byte : Nat → UInt8) : Nat → Nat → Option Nat
  | 0, _ => none
  | fuel + 1, i => if byte i = 0 then some i else strlenFrom byte fuel (i + 1)

namespace Arena

variable (s : Arena)

/-- The memory of the chunk has not been given back to the system. -/
def Mapped (chunk : Chunk) : Prop := chunk.block ∈ (s.mem.pool ()).addresses

instance (chunk : Chunk) : Decidable (s.Mapped chunk) :=
  inferInstanceAs (Decidable (chunk.block ∈ (s.mem.pool ()).addresses))

/-- `strlen`.  `none`: memory is read that is not there. -/
def strlen : Source → Option Nat
  | .text str => some str.bytes.length
  | .data chunk => if s.Mapped chunk then strlenFrom (s.byteAt chunk) (s.requested chunk) 0 else none

/-- A byte of the string, the NUL included. -/
def sourceByte : Source → Nat → UInt8
  | .text str, i => str.bytes.getD i 0
  | .data chunk, i => s.byteAt chunk i

/-- The first bytes can be copied to somewhere in a chunk: they are there, and do not overlap with it. -/
def Copies (chunk : Chunk) (start n : Nat) : Source → Prop
  | .text str => n ≤ str.bytes.length + 1
  | .data source => s.Mapped source ∧ n ≤ s.requested source ∧ (source = chunk → n ≤ start)

instance (chunk : Chunk) (start n : Nat) : ∀ source, Decidable (s.Copies chunk start n source)
  | .text str => inferInstanceAs (Decidable (n ≤ str.bytes.length + 1))
  | .data source =>
      inferInstanceAs (Decidable (s.Mapped source ∧ n ≤ s.requested source ∧ (source = chunk → n ≤ start)))

/-- `memcpy`. -/
def memcpy (chunk : Chunk) (start n : Nat) (source : Source) : Option Arena :=
  if s.Copies chunk start n source ∧ start + n ≤ s.requested chunk then
    some (s.put chunk start n (s.sourceByte source))
  else none

/-- `memset` to 0. -/
def clear (chunk : Chunk) (start n : Nat) : Option Arena :=
  if start + n ≤ s.requested chunk then some (s.put chunk start n fun _ => 0) else none

end Arena

/-! ## The library -/

/-- The pool, and the `String`s that are there. -/
structure Strings where
  arena : Arena
  builder : Nat → Option Builder
  next : Nat

/-- The calls.  A `String` is named by its number. -/
inductive StringCall where
  | initString (str : CStr)
  | stringAppendChar (i : Nat) (str : CStr)
  | stringAppendString (i j : Nat)
  | copyString (i : Nat)
  | freeString (i : Nat)

namespace Strings

variable (s : Strings)

/-- Before the first call. -/
def init (bytes : Nat → Nat → UInt8) : Strings where
  arena := Arena.create parserBlockSize bytes
  builder := fun _ => none
  next := 0

/-- A `String` is returned. -/
def add (arena : Arena) (b : Builder) : Strings where
  arena := arena
  builder := Function.update s.builder s.next (some b)
  next := s.next + 1

@[simp] theorem add_self (arena : Arena) (b : Builder) : (s.add arena b).builder s.next = some b :=
  Function.update_self _ _ _

theorem add_of_ne (arena : Arena) (b : Builder) {i : Nat} (hi : i ≠ s.next) :
    (s.add arena b).builder i = s.builder i := Function.update_of_ne hi _ _

/-- `init_string`.  `size` and `len` are ints, and so is `STRING_SIZE * size`. -/
def initString (str : CStr) : Option Strings :=
  let n := str.bytes.length
  let size := ((n + 1) / stringSize + 1) % 2 ^ 32
  let len := n % 2 ^ 32
  if stringSize * size < 2 ^ 31 then
    let (self, arena) := s.arena.poolAlloc sizeofString
    let (data, arena) := arena.poolAlloc (stringSize * size)
    ((arena.clear data 0 (stringSize * size)).bind fun arena => arena.memcpy data 0 len (.text str)).map
      fun arena => s.add arena ⟨self, size, len, data⟩
  else none

/-- The room for some more bytes and a NUL. -/
def grow (b : Builder) (len : Nat) : Option (Builder × Arena) :=
  if b.size * stringSize < b.len + len + 1 then
    let size := (b.len + len + 1) / stringSize + 1
    if stringSize * size < 2 ^ 31 then
      let (data, arena) := s.arena.poolRealloc b.data (size * stringSize)
      (arena.clear data (b.size * stringSize) (stringSize * (size - b.size))).map fun arena =>
        ({ b with size, data }, arena)
    else none
  else some (b, s.arena)

/-- `string_append_char`.  A length that does not fit into an int is negative or too short, and the sum of
the two must fit as well. -/
def append (i : Nat) (source : Source) : Option Strings :=
  (s.builder i).bind fun b =>
  (s.arena.strlen source).bind fun n =>
  let len := n % 2 ^ 32
  if len < 2 ^ 31 ∧ b.len + len + 1 < 2 ^ 31 then
    (s.grow b len).bind fun (b, arena) =>
    (arena.memcpy b.data b.len len source).map fun arena =>
      { s with arena, builder := Function.update s.builder i (some { b with len := b.len + len }) }
  else none

/-- `string_append_string`. -/
def stringAppendString (i j : Nat) : Option Strings :=
  (s.builder j).bind fun b => s.append i (.data b.data)

/-- `copy_string`. -/
def copyString (i : Nat) : Option Strings :=
  (s.builder i).bind fun b =>
  let (self, arena) := s.arena.poolAlloc sizeofString
  let (data, arena) := arena.poolAlloc (b.size * stringSize)
  (arena.memcpy data 0 (b.size * stringSize) (.data b.data)).map fun arena =>
    s.add arena ⟨self, b.size, b.len, data⟩

/-- `free_string`. -/
def freeString (i : Nat) : Option Strings :=
  (s.builder i).map fun b =>
    { s with
      arena := (s.arena.poolFree b.data).poolFree b.self
      builder := Function.update s.builder i none }

/-- One call.  `none`: the code does something that C does not define. -/
def step : StringCall → Option Strings
  | .initString str => s.initString str
  | .stringAppendChar i str => s.append i (.text str)
  | .stringAppendString i j => s.stringAppendString i j
  | .copyString i => s.copyString i
  | .freeString i => s.freeString i

end Strings

/-! ## What it is for -/

/-- Texts by their numbers. -/
structure Texts where
  text : Nat → Option (List UInt8)
  next : Nat

namespace Texts

variable (a : Texts)

def init : Texts := ⟨fun _ => none, 0⟩

def add (text : List UInt8) : Texts := ⟨Function.update a.text a.next (some text), a.next + 1⟩

@[simp] theorem add_self (text : List UInt8) : (a.add text).text a.next = some text :=
  Function.update_self _ _ _

theorem add_of_ne (text : List UInt8) {i : Nat} (hi : i ≠ a.next) : (a.add text).text i = a.text i :=
  Function.update_of_ne hi _ _

def set (i : Nat) (text : Option (List UInt8)) : Texts := { a with text := Function.update a.text i text }

/-- What a call is for.  `none`: a text is named that is not there. -/
def step : StringCall → Option Texts
  | .initString str => some (a.add str.bytes)
  | .stringAppendChar i str => (a.text i).map fun text => a.set i (some (text ++ str.bytes))
  | .stringAppendString i j =>
      (a.text i).bind fun text => (a.text j).map fun more => a.set i (some (text ++ more))
  | .copyString i => (a.text i).map a.add
  | .freeString i => (a.text i).map fun _ => a.set i none

end Texts

/-- A `String` holds a text: in a chunk of its own that is in use, with a NUL behind it. -/
structure Builder.Spells (s : Arena) (b : Builder) (text : List UInt8) : Prop where
  len : b.len = text.length
  room : text.length < stringSize * b.size
  small : stringSize * b.size < 2 ^ 31
  noNul : 0 ∉ text
  self : s.InUse b.self
  data : s.InUse b.data
  requested : s.requested b.data = stringSize * b.size
  bytes : ∀ i, i < stringSize * b.size → s.byteAt b.data i = text.getD i 0
  own : parserBlockSize < s.mem.size b.data → s.mem.size b.data = stringSize * b.size + poolHeaderSize

/-- The chunks of a `String`. -/
def Builder.Owns (b : Builder) (chunk : Chunk) : Prop := chunk = b.self ∨ chunk = b.data

/-- The `String`s hold the texts, each in chunks of its own. -/
structure Represents (s : Strings) (a : Texts) : Prop where
  valid : s.arena.Valid 13
  next : s.next = a.next
  fresh : ∀ i, s.next ≤ i → s.builder i = none
  held : ∀ i b, s.builder i = some b → ∃ text, a.text i = some text ∧ b.Spells s.arena text
  absent : ∀ i, s.builder i = none → a.text i = none
  parts : ∀ i b, s.builder i = some b → b.self ≠ b.data
  apart : ∀ i j b c chunk, s.builder i = some b → s.builder j = some c → b.Owns chunk → c.Owns chunk → i = j

/-! ## When it works -/

/-- The `String` has to grow for some more bytes. -/
def Builder.Grows (b : Builder) (n : Nat) : Prop := b.size * stringSize < b.len + n + 1

instance (b : Builder) (n : Nat) : Decidable (b.Grows n) :=
  inferInstanceAs (Decidable (b.size * stringSize < b.len + n + 1))

/-- With some more bytes, the size is still an int. -/
def Builder.Fits (b : Builder) (n : Nat) : Prop := b.Grows n → b.len + n + 1 + stringSize < 2 ^ 31

instance (b : Builder) (n : Nat) : Decidable (b.Fits n) :=
  inferInstanceAs (Decidable (b.Grows n → b.len + n + 1 + stringSize < 2 ^ 31))

/-- The condition on a call: no length comes near to 2^31, and no `String` grows by itself that has a block of
its own. -/
def Strings.Careful (s : Strings) : StringCall → Prop
  | .initString str => str.bytes.length + 1 + stringSize < 2 ^ 31
  | .stringAppendChar i str => ∀ b ∈ s.builder i, b.Fits str.bytes.length
  | .stringAppendString i j => ∀ b ∈ s.builder i, ∀ c ∈ s.builder j,
      b.Fits c.len ∧ ¬ (i = j ∧ 64 ≤ b.size ∧ b.Grows b.len)
  | .copyString _ | .freeString _ => True

instance (s : Strings) : ∀ c : StringCall, Decidable (s.Careful c)
  | .initString str => inferInstanceAs (Decidable (str.bytes.length + 1 + stringSize < 2 ^ 31))
  | .stringAppendChar i str => inferInstanceAs (Decidable (∀ b ∈ s.builder i, b.Fits str.bytes.length))
  | .stringAppendString i j => inferInstanceAs (Decidable (∀ b ∈ s.builder i, ∀ c ∈ s.builder j,
      b.Fits c.len ∧ ¬ (i = j ∧ 64 ≤ b.size ∧ b.Grows b.len)))
  | .copyString _ | .freeString _ => inferInstanceAs (Decidable True)

/-! ## Chunks and their bytes -/

/-- The first NUL is found. -/
theorem strlenFrom_eq_some {byte : Nat → UInt8} {n : Nat} (hbyte : ∀ j, j < n → byte j ≠ 0) (hnul : byte n = 0)
    {fuel i : Nat} (hi : i ≤ n) (hfuel : n < i + fuel) : strlenFrom byte fuel i = some n := by
  induction fuel generalizing i with
  | zero => omega
  | succ fuel ih =>
    rw [strlenFrom]
    by_cases hin : i = n
    · rw [hin, if_pos hnul]
    · rw [if_neg (hbyte i (by omega))]
      exact ih (by omega) (by omega)

namespace Arena

variable {s t : Arena} {k size : Nat} {a chunk : Chunk}

/-- The memory of a chunk in use, or in a free list, is there. -/
theorem Valid.mapped (h : Valid k s) (ha : s.mem.Cut a) : s.Mapped a := by
  cases h.laid.placed a ha with
  | small _ _ _ hblock =>
    obtain ⟨b, hb, hadd, -⟩ := hblock
    exact List.mem_append_left _ (hadd ▸ List.mem_map_of_mem hb)
  | large _ hblock =>
    obtain ⟨b, hb, rfl, -⟩ := hblock
    exact List.mem_append_right _ (List.mem_map_of_mem (f := Block.address) hb)

end Arena

namespace Builder

variable {s t : Arena} {b : Builder} {text : List UInt8}

theorem Spells.kept (h : b.Spells s text) (hself : s.Kept t b.self) (hdata : s.Kept t b.data) :
    b.Spells t text where
  len := h.len
  room := h.room
  small := h.small
  noNul := h.noNul
  self := hself.inUse
  data := hdata.inUse
  requested := hdata.requested.trans h.requested
  bytes i hi := (hdata.bytes i (h.requested.symm ▸ hi)).trans (h.bytes i hi)
  own := by
    rw [hdata.size]
    exact h.own

/-- `strlen` of the data is the length. -/
theorem Spells.strlen (h : b.Spells s text) (hs : s.Valid 13) : s.strlen (.data b.data) = some text.length := by
  unfold Arena.strlen
  simp only
  rw [if_pos (hs.mapped (Or.inl h.data)), h.requested]
  refine strlenFrom_eq_some (fun j hj => ?_) ?_ (Nat.zero_le _) (by have := h.room; omega)
  · rw [h.bytes j (Nat.lt_trans hj h.room), List.getD_eq_getElem _ _ hj]
    exact fun hzero => h.noNul (hzero ▸ List.getElem_mem hj)
  · rw [h.bytes _ h.room, List.getD_eq_default _ _ (Nat.le_refl _)]

/-- A `String` has a block of its own from 64 steps on. -/
theorem Spells.large_iff (h : b.Spells s text) (hs : s.Valid 13) :
    parserBlockSize < s.mem.size b.data ↔ 64 ≤ b.size := by
  have hlarge := hs.large b.data h.data
  have hown := h.own
  rw [h.requested] at hlarge
  unfold parserBlockSize stringSize poolHeaderSize at *
  constructor
  · intro hlt
    have := hown hlt
    omega
  · intro hle
    omega

end Builder

/-! ## Growing -/

/-- What growing is for.  The data that were there can still be read, but for those in a block of their
own. -/
structure Grown (s : Arena) (b : Builder) (n : Nat) (text : List UInt8) (b' : Builder) (t : Arena) : Prop where
  valid : t.Valid 13
  self : b'.self = b.self
  spells : b'.Spells t text
  room : text.length + n < stringSize * b'.size
  other : ∀ a, s.InUse a → a ≠ b.data → s.Kept t a ∧ a ≠ b'.data
  source : ¬ (64 ≤ b.size ∧ b.Grows n) → t.Mapped b.data ∧ stringSize * b.size ≤ t.requested b.data ∧
    ∀ i, i < stringSize * b.size → t.byteAt b.data i = s.byteAt b.data i

namespace Builder

variable {s t : Arena} {b : Builder} {text : List UInt8} {n size : Nat} {p : Chunk}

/-- The data have been reallocated, and the new bytes are cleared. -/
theorem Spells.cleared (h : b.Spells s text) (hs : s.Valid 13) (hparts : b.self ≠ b.data)
    (hr : s.Reallocated 13 b.data (size * stringSize) p t) (hgrows : b.Grows n) (hsize : b.size ≤ size)
    (hsmall : stringSize * size < 2 ^ 31) (hroom : text.length + n < stringSize * size) :
    Grown s b n text { b with size, data := p }
      (t.put p (b.size * stringSize) (stringSize * (size - b.size)) fun _ => 0) := by
  have hlen := h.room
  have hbound : b.size * stringSize + stringSize * (size - b.size) = stringSize * size := by
    rw [Nat.mul_comm, ← Nat.mul_add, Nat.add_sub_cancel' hsize]
  have hcomm : size * stringSize = stringSize * size := Nat.mul_comm _ _
  have hold : b.size * stringSize = stringSize * b.size := Nat.mul_comm _ _
  have hin : b.size * stringSize + stringSize * (size - b.size) ≤ t.requested p := by
    exact Nat.le_of_eq (hbound.trans (hr.requested.trans hcomm).symm)
  have hother : ∀ a, s.InUse a → a ≠ b.data →
      s.Kept (t.put p (b.size * stringSize) (stringSize * (size - b.size)) fun _ => 0) a ∧ a ≠ p := by
    intro a ha hne
    obtain ⟨hkept, hp⟩ := hr.other a ha hne
    exact ⟨hkept.trans (hr.valid.put_kept _ hr.inUse hin hkept.inUse hp), hp⟩
  have hkeeps : ∀ i, i < stringSize * b.size →
      (t.put p (b.size * stringSize) (stringSize * (size - b.size)) fun _ => 0).byteAt p i = t.byteAt p i := by
    intro i hi
    rw [Arena.put_byteAt, if_neg (by omega)]
  refine ⟨hr.valid.put _ _ _ _, rfl, ?_, hroom, hother, fun hcond => ?_⟩
  · refine ⟨h.len, by show text.length < stringSize * size; omega, hsmall, h.noNul,
      (hother _ h.self hparts).1.inUse, hr.inUse, hr.requested.trans hcomm, fun i hi => ?_, fun hlarge => ?_⟩
    · have hi : i < stringSize * size := hi
      show (t.put p _ _ _).byteAt p i = text.getD i 0
      by_cases hlt : i < stringSize * b.size
      · rw [hkeeps i hlt, hr.copied i (h.requested.symm ▸ hlt), h.bytes i hlt]
      · rw [Arena.put_byteAt, if_pos (by omega), List.getD_eq_default _ _ (by omega)]
    · exact (hr.own hlarge).trans (congrArg (· + poolHeaderSize) hcomm)
  · have hfew : ¬ 64 ≤ b.size := fun hle => hcond ⟨hle, hgrows⟩
    rw [← h.large_iff hs] at hfew
    by_cases hp : p = b.data
    · subst hp
      refine ⟨(hr.valid.put _ _ _ _).mapped (Or.inl hr.inUse), ?_, fun i hi => ?_⟩
      · show stringSize * b.size ≤ t.requested b.data
        rw [hr.requested, hcomm]
        exact Nat.mul_le_mul_left _ hsize
      · rw [hkeeps i hi]
        exact hr.old i (h.requested.symm ▸ hi)
    · have hcut := hr.small hp hfew
      obtain ⟨hrequested, hheader⟩ := hr.left hp
      have hlarge := hs.large b.data h.data
      have hroomy := hr.valid.large p hr.inUse
      rw [h.requested] at hlarge
      refine ⟨(hr.valid.put _ _ _ _).mapped hcut, ?_, fun i hi => ?_⟩
      · exact Nat.le_of_eq (h.requested.symm.trans hrequested.symm)
      · rw [Arena.put_byteAt_apart t _ (hr.valid.laid.apart b.data p hcut (Or.inl hr.inUse) (Ne.symm hp))
          (by omega) (by omega)]
        exact hr.old i (h.requested.symm ▸ hi)

theorem Spells.grow {s : Strings} (h : b.Spells s.arena text) (hs : s.arena.Valid 13)
    (hparts : b.self ≠ b.data) (hfits : b.Fits n) :
    ∃ b' t, s.grow b n = some (b', t) ∧ Grown s.arena b n text b' t := by
  have hlen := h.len
  have hcomm : b.size * stringSize = stringSize * b.size := Nat.mul_comm _ _
  unfold Strings.grow
  by_cases hgrows : b.Grows n
  · have hsum := hfits hgrows
    have hneed : b.size * stringSize < b.len + n + 1 := hgrows
    have hmore : b.size ≤ (b.len + n + 1) / stringSize + 1 := by
      unfold stringSize at *
      omega
    have hsmall : stringSize * ((b.len + n + 1) / stringSize + 1) < 2 ^ 31 := by
      unfold stringSize at *
      omega
    have hroom : text.length + n < stringSize * ((b.len + n + 1) / stringSize + 1) := by
      unfold stringSize at *
      omega
    rw [if_pos hneed]
    simp only
    rw [if_pos hsmall]
    generalize (b.len + n + 1) / stringSize + 1 = size at *
    have hswap : size * stringSize = stringSize * size := Nat.mul_comm _ _
    have hrealloc := hs.poolRealloc_grows (by decide) (by decide) h.data
      (show size * stringSize + poolHeaderSize < 2 ^ 32 by unfold poolHeaderSize; omega)
      (fun hlarge => (h.own hlarge).trans (congrArg (· + poolHeaderSize) h.requested.symm))
      (by rw [h.requested, ← hcomm]; exact Nat.mul_le_mul_right _ hmore)
    generalize s.arena.poolRealloc b.data (size * stringSize) = new at *
    obtain ⟨p, t⟩ := new
    have hin : b.size * stringSize + stringSize * (size - b.size) ≤ t.requested p := by
      rw [hcomm, ← Nat.mul_add, Nat.add_sub_cancel' hmore, ← hswap]
      exact Nat.le_of_eq hrealloc.requested.symm
    refine ⟨_, _, ?_, h.cleared hs hparts hrealloc hgrows hmore hsmall hroom⟩
    simp only [Arena.clear, if_pos hin, Option.map_some]
  · have hneed : ¬ b.size * stringSize < b.len + n + 1 := hgrows
    rw [if_neg hneed]
    refine ⟨b, s.arena, rfl, hs, rfl, h, by omega, fun a ha hne => ⟨⟨ha, rfl, rfl, fun _ _ => rfl⟩, hne⟩,
      fun _ => ⟨hs.mapped (Or.inl h.data), Nat.le_of_eq h.requested.symm, fun _ _ => rfl⟩⟩

end Builder

/-! ## Copying -/

/-- What is copied to a chunk. -/
structure Reads (s : Arena) (chunk : Chunk) (start : Nat) (more : List UInt8) (source : Source) : Prop where
  copies : s.Copies chunk start more.length source
  byte : ∀ i, i < more.length → s.sourceByte source i = more.getD i 0

theorem reads_text (s : Arena) (chunk : Chunk) (start : Nat) (str : CStr) :
    Reads s chunk start str.bytes (.text str) := ⟨Nat.le_succ _, fun _ _ => rfl⟩

/-- The data of a `String`, where there is no overlap. -/
theorem Builder.Spells.reads {s : Arena} {b : Builder} {text : List UInt8} (h : b.Spells s text)
    (hs : s.Valid 13) {chunk : Chunk} {start : Nat} (hover : b.data = chunk → text.length ≤ start) :
    Reads s chunk start text (.data b.data) := by
  have hroom := h.room
  refine ⟨⟨hs.mapped (Or.inl h.data), ?_, hover⟩, fun i hi => h.bytes i (Nat.lt_trans hi hroom)⟩
  rw [h.requested]
  exact Nat.le_of_lt hroom

/-- The text is followed by more. -/
theorem Builder.Spells.put {s : Arena} {b : Builder} {text more : List UInt8} (h : b.Spells s text)
    (hs : s.Valid 13) (hparts : b.self ≠ b.data) {byte : Nat → UInt8}
    (hbyte : ∀ i, i < more.length → byte i = more.getD i 0) (hmore : 0 ∉ more)
    (hroom : text.length + more.length < stringSize * b.size) :
    Builder.Spells (s.put b.data b.len more.length byte) { b with len := b.len + more.length }
      (text ++ more) := by
  have hlen := h.len
  have hin : b.len + more.length ≤ s.requested b.data := by
    rw [h.requested]
    omega
  refine ⟨?_, ?_, h.small, ?_, (hs.put_kept byte h.data hin h.self hparts).inUse, h.data, h.requested,
    fun i hi => ?_, h.own⟩
  · rw [List.length_append, ← hlen]
  · rw [List.length_append]
    exact hroom
  · exact fun hmem => (List.mem_append.mp hmem).elim h.noNul hmore
  · show (s.put b.data b.len more.length byte).byteAt b.data i = (text ++ more).getD i 0
    rw [Arena.put_byteAt]
    by_cases hlt : i < text.length
    · rw [if_neg (by omega), List.getD_append _ _ _ _ hlt]
      exact h.bytes i hi
    · rw [List.getD_append_right _ _ _ _ (by omega), ← hlen]
      by_cases hend : i < b.len + more.length
      · rw [if_pos (by omega)]
        exact hbyte _ (by omega)
      · rw [if_neg (by omega), List.getD_eq_default more _ (by omega), h.bytes i hi,
          List.getD_eq_default _ _ (by omega)]

/-! ## Calls -/

namespace Represents

variable {s : Strings} {a : Texts} {t : Arena} {b b' : Builder} {text more : List UInt8} {i j : Nat}

theorem held_of (h : Represents s a) (hb : s.builder i = some b) (htext : a.text i = some text) :
    b.Spells s.arena text := by
  obtain ⟨text', heq, hspells⟩ := h.held i b hb
  rw [htext] at heq
  cases heq
  exact hspells

/-- A text that is there is held. -/
theorem builder_of (h : Represents s a) (htext : a.text i = some text) :
    ∃ b, s.builder i = some b ∧ b.Spells s.arena text := by
  cases hb : s.builder i with
  | none =>
    rw [h.absent i hb] at htext
    cases htext
  | some b => exact ⟨b, rfl, h.held_of hb htext⟩

theorem inUse (h : Represents s a) (hb : s.builder i = some b) {chunk : Chunk} (hown : b.Owns chunk) :
    s.arena.InUse chunk := by
  obtain ⟨text, -, hspells⟩ := h.held i b hb
  rcases hown with rfl | rfl
  · exact hspells.self
  · exact hspells.data

/-- A `String` keeps its text when its chunks are kept. -/
theorem held_kept (h : Represents s a) (hb : s.builder i = some b)
    (hkept : ∀ chunk, b.Owns chunk → s.arena.Kept t chunk) :
    ∃ text, a.text i = some text ∧ b.Spells t text := by
  obtain ⟨text, htext, hspells⟩ := h.held i b hb
  exact ⟨text, htext, hspells.kept (hkept _ (Or.inl rfl)) (hkept _ (Or.inr rfl))⟩

/-- Another `String`, in chunks that are new. -/
theorem add (h : Represents s a) (ht : t.Valid 13) (hkept : ∀ c, s.arena.InUse c → s.arena.Kept t c)
    (hspells : b.Spells t text) (hparts : b.self ≠ b.data) (hnew : ∀ c, b.Owns c → ¬ s.arena.InUse c) :
    Represents (s.add t b) (a.add text) := by
  have hother : ∀ i c, (s.add t b).builder i = some c → i = s.next ∧ c = b ∨ s.builder i = some c := by
    intro i c hc
    by_cases hi : i = s.next
    · subst hi
      rw [Strings.add_self] at hc
      cases hc
      exact Or.inl ⟨rfl, rfl⟩
    · rw [Strings.add_of_ne _ _ _ hi] at hc
      exact Or.inr hc
  have hlt : ∀ i c, s.builder i = some c → i ≠ s.next := by
    rintro i c hc rfl
    rw [h.fresh _ (Nat.le_refl _)] at hc
    cases hc
  refine ⟨ht, congrArg (· + 1) h.next, fun i hi => ?_, fun i c hc => ?_, fun i hc => ?_, fun i c hc => ?_, ?_⟩
  · have hle : s.next + 1 ≤ i := hi
    rw [Strings.add_of_ne _ _ _ (by omega)]
    exact h.fresh i (by omega)
  · rcases hother i c hc with ⟨rfl, rfl⟩ | hc
    · refine ⟨text, ?_, hspells⟩
      rw [h.next]
      exact a.add_self text
    · obtain ⟨text', htext, hspells'⟩ := h.held_kept hc fun chunk hown => hkept chunk (h.inUse hc hown)
      refine ⟨text', ?_, hspells'⟩
      rw [Texts.add_of_ne _ _ (h.next ▸ hlt i c hc)]
      exact htext
  · have hne : i ≠ s.next := by
      rintro rfl
      rw [Strings.add_self] at hc
      cases hc
    rw [Strings.add_of_ne _ _ _ hne] at hc
    rw [Texts.add_of_ne _ _ (h.next ▸ hne)]
    exact h.absent i hc
  · rcases hother i c hc with ⟨-, rfl⟩ | hc
    · exact hparts
    · exact h.parts i c hc
  · intro i j c d chunk hc hd hown hown'
    rcases hother i c hc with ⟨rfl, rfl⟩ | hc' <;> rcases hother j d hd with ⟨rfl, rfl⟩ | hd'
    · rfl
    · exact absurd (h.inUse hd' hown') (hnew chunk hown)
    · exact absurd (h.inUse hc' hown) (hnew chunk hown')
    · exact h.apart i j c d chunk hc' hd' hown hown'

/-- One `String` has another text, where the others are kept. -/
theorem set (h : Represents s a) (hb : s.builder i = some b) (ht : t.Valid 13)
    (hother : ∀ c, s.arena.InUse c → c ≠ b.data → s.arena.Kept t c ∧ c ≠ b'.data) (hself : b'.self = b.self)
    (hspells : b'.Spells t text) :
    Represents { s with arena := t, builder := Function.update s.builder i (some b') }
      (a.set i (some text)) := by
  have hcases : ∀ j c, Function.update s.builder i (some b') j = some c →
      j = i ∧ c = b' ∨ j ≠ i ∧ s.builder j = some c := by
    intro j c hc
    by_cases hj : j = i
    · subst hj
      rw [Function.update_self] at hc
      cases hc
      exact Or.inl ⟨rfl, rfl⟩
    · rw [Function.update_of_ne hj] at hc
      exact Or.inr ⟨hj, hc⟩
  have hkept : ∀ j c, j ≠ i → s.builder j = some c → ∀ chunk, c.Owns chunk →
      s.arena.Kept t chunk ∧ chunk ≠ b'.data ∧ chunk ≠ b.self := by
    intro j c hj hc chunk hown
    have hne : ∀ x, b.Owns x → chunk ≠ x := by
      rintro x hx rfl
      exact hj (h.apart j i c b chunk hc hb hown hx)
    obtain ⟨hkept, hnew⟩ := hother chunk (h.inUse hc hown) (hne _ (Or.inr rfl))
    exact ⟨hkept, hnew, hne _ (Or.inl rfl)⟩
  have hclash : ∀ j c chunk, j ≠ i → s.builder j = some c → c.Owns chunk → ¬ b'.Owns chunk := by
    intro j c chunk hj hc hown hown'
    obtain ⟨-, hdata, hne⟩ := hkept j c hj hc chunk hown
    exact hown'.elim (fun heq => hne (heq.trans hself)) hdata
  refine ⟨ht, h.next, fun j hj => ?_, fun j c hc => ?_, fun j hc => ?_, fun j c hc => ?_, ?_⟩
  · have hne : j ≠ i := by
      rintro rfl
      rw [h.fresh _ hj] at hb
      cases hb
    show Function.update s.builder i (some b') j = none
    rw [Function.update_of_ne hne]
    exact h.fresh j hj
  · rcases hcases j c hc with ⟨rfl, rfl⟩ | ⟨hj, hc⟩
    · exact ⟨text, Function.update_self _ _ _, hspells⟩
    · obtain ⟨text', htext, hspells'⟩ := h.held_kept hc fun chunk hown => (hkept j c hj hc chunk hown).1
      exact ⟨text', (Function.update_of_ne hj _ _).trans htext, hspells'⟩
  · by_cases hj : j = i
    · rw [hj] at hc
      exact absurd ((Function.update_self _ _ _).symm.trans hc) nofun
    · exact (Function.update_of_ne hj _ _).trans
        (h.absent j ((Function.update_of_ne hj _ _).symm.trans hc))
  · rcases hcases j c hc with ⟨rfl, rfl⟩ | ⟨-, hc⟩
    · rw [hself]
      exact (hother b.self (h.inUse hb (Or.inl rfl)) (h.parts _ b hb)).2
    · exact h.parts j c hc
  · intro j l c d chunk hc hd hown hown'
    rcases hcases j c hc with ⟨rfl, rfl⟩ | ⟨hj, hc'⟩ <;> rcases hcases l d hd with ⟨rfl, rfl⟩ | ⟨hl, hd'⟩
    · rfl
    · exact absurd hown (hclash l d chunk hl hd' hown')
    · exact absurd hown' (hclash j c chunk hj hc' hown)
    · exact h.apart j l c d chunk hc' hd' hown hown'

/-- `free_string`. -/
theorem freeString (h : Represents s a) (htext : a.text i = some text) :
    ∃ s', s.freeString i = some s' ∧ Represents s' (a.set i none) := by
  obtain ⟨b, hb, hspells⟩ := h.builder_of htext
  have hparts := h.parts i b hb
  obtain ⟨hvalid, -⟩ := h.valid.poolFree (by decide) hspells.data
  have hself := Arena.poolFree_kept hspells.self hparts
  obtain ⟨hvalid', -⟩ := hvalid.poolFree (by decide) hself.inUse
  have hkept : ∀ j c, j ≠ i → s.builder j = some c → ∀ chunk, c.Owns chunk →
      s.arena.Kept ((s.arena.poolFree b.data).poolFree b.self) chunk := by
    intro j c hj hc chunk hown
    have hne : ∀ x, b.Owns x → chunk ≠ x := by
      rintro x hx rfl
      exact hj (h.apart j i c b chunk hc hb hown hx)
    have hdata := Arena.poolFree_kept (h.inUse hc hown) (hne _ (Or.inr rfl))
    exact hdata.trans (Arena.poolFree_kept hdata.inUse (hne _ (Or.inl rfl)))
  have hcases : ∀ j c, Function.update s.builder i none j = some c → j ≠ i ∧ s.builder j = some c := by
    intro j c hc
    by_cases hj : j = i
    · subst hj
      rw [Function.update_self] at hc
      cases hc
    · rw [Function.update_of_ne hj] at hc
      exact ⟨hj, hc⟩
  unfold Strings.freeString
  rw [hb]
  refine ⟨_, rfl, hvalid', h.next, fun j hj => ?_, fun j c hc => ?_, fun j hc => ?_, fun j c hc => ?_, ?_⟩
  · have hfresh := h.fresh j hj
    show Function.update s.builder i none j = none
    by_cases hij : j = i
    · rw [hij, Function.update_self]
    · rw [Function.update_of_ne hij]
      exact hfresh
  · obtain ⟨hj, hc⟩ := hcases j c hc
    obtain ⟨text', htext', hspells'⟩ := h.held_kept hc (hkept j c hj hc)
    exact ⟨text', (Function.update_of_ne hj _ _).trans htext', hspells'⟩
  · by_cases hj : j = i
    · rw [hj]
      exact Function.update_self _ _ _
    · exact (Function.update_of_ne hj _ _).trans
        (h.absent j ((Function.update_of_ne hj _ _).symm.trans hc))
  · exact h.parts j c (hcases j c hc).2
  · exact fun j l c d chunk hc hd => h.apart j l c d chunk (hcases j c hc).2 (hcases l d hd).2

end Represents

/-- The chunks of a new `String`. -/
structure Fresh (s : Arena) (n : Nat) (string data : Chunk) (t : Arena) : Prop where
  valid : t.Valid 13
  kept : ∀ c, s.InUse c → s.Kept t c
  selfUsed : t.InUse string
  dataUsed : t.InUse data
  parts : string ≠ data
  newSelf : ¬ s.InUse string
  newData : ¬ s.InUse data
  requested : t.requested data = n
  own : 2 ^ 13 < t.mem.size data → t.mem.size data = n + poolHeaderSize

/-- The two allocations of a new `String`. -/
theorem fresh_poolAlloc {s : Arena} (h : s.Valid 13) {n : Nat} (hn : n < 2 ^ 31) :
    Fresh s n (s.poolAlloc sizeofString).1 ((s.poolAlloc sizeofString).2.poolAlloc n).1
      ((s.poolAlloc sizeofString).2.poolAlloc n).2 := by
  have hsize : sizeofString + poolHeaderSize < 2 ^ 32 := by decide
  have hsmall : n + poolHeaderSize < 2 ^ 32 := by
    unfold poolHeaderSize
    omega
  obtain ⟨hvalid, hself, hnew⟩ := h.poolAlloc hsize
  have hkept : ∀ c, s.InUse c → s.Kept (s.poolAlloc sizeofString).2 c := fun c hc => h.poolAlloc_kept hsize hc
  generalize s.poolAlloc sizeofString = first at *
  obtain ⟨string, t⟩ := first
  simp only at hself hnew ⊢
  obtain ⟨hvalid', hdata, hnew'⟩ := hvalid.poolAlloc hsmall
  refine ⟨hvalid', fun c hc => (hkept c hc).trans (hvalid.poolAlloc_kept hsmall (hkept c hc).inUse),
    (hvalid.poolAlloc_kept hsmall hself).inUse, hdata, ?_, hnew.1, fun hl => hnew'.1 (hkept _ hl).inUse,
    Function.update_self _ _ _, hvalid.laid.size_poolMemoryAlloc (by decide) hsmall⟩
  intro heq
  rw [heq] at hself
  exact hnew'.1 hself

theorem Fresh.put {s t : Arena} {n m start : Nat} {string data : Chunk} (h : Fresh s n string data t)
    (byte : Nat → UInt8) (hm : start + m ≤ n) : Fresh s n string data (t.put data start m byte) := by
  have hin : start + m ≤ t.requested data := h.requested.symm ▸ hm
  refine ⟨h.valid.put _ _ _ _, fun c hc => ?_, h.selfUsed, h.dataUsed, h.parts, h.newSelf, h.newData, h.requested,
    h.own⟩
  have hne : c ≠ data := by
    rintro rfl
    exact h.newData hc
  exact (h.kept c hc).trans (h.valid.put_kept byte h.dataUsed hin (h.kept c hc).inUse hne)

/-- Where the bytes are those of a text. -/
theorem Fresh.spells {s t : Arena} {size : Nat} {string data : Chunk}
    (h : Fresh s (stringSize * size) string data t) (hsmall : stringSize * size < 2 ^ 31) {text : List UInt8}
    (hroom : text.length < stringSize * size) (hnoNul : 0 ∉ text)
    (hbytes : ∀ i, i < stringSize * size → t.byteAt data i = text.getD i 0) :
    Builder.Spells t ⟨string, size, text.length, data⟩ text :=
  ⟨rfl, hroom, hsmall, hnoNul, h.selfUsed, h.dataUsed, h.requested, hbytes, h.own⟩

theorem Fresh.add {s : Strings} {a : Texts} {t : Arena} {n : Nat} {b : Builder} {text : List UInt8}
    (h : Fresh s.arena n b.self b.data t) (hs : Represents s a) (hspells : b.Spells t text) :
    Represents (s.add t b) (a.add text) :=
  hs.add h.valid h.kept hspells h.parts fun c hown => by
    rcases hown with rfl | rfl
    · exact h.newSelf
    · exact h.newData

namespace Represents

variable {s : Strings} {a : Texts} {b : Builder} {text more : List UInt8} {i j : Nat}

/-- `init_string`. -/
theorem initString (h : Represents s a) {str : CStr} (hsmall : str.bytes.length + 1 + stringSize < 2 ^ 31) :
    ∃ s', s.initString str = some s' ∧ Represents s' (a.add str.bytes) := by
  have hsize : ((str.bytes.length + 1) / stringSize + 1) % 2 ^ 32 =
      (str.bytes.length + 1) / stringSize + 1 := by
    unfold stringSize at *
    omega
  have hlen : str.bytes.length % 2 ^ 32 = str.bytes.length := Nat.mod_eq_of_lt (by omega)
  have hbound : stringSize * ((str.bytes.length + 1) / stringSize + 1) < 2 ^ 31 := by
    unfold stringSize at *
    omega
  have hroom : str.bytes.length < stringSize * ((str.bytes.length + 1) / stringSize + 1) := by
    unfold stringSize at *
    omega
  unfold Strings.initString
  simp only [hsize, hlen]
  rw [if_pos hbound]
  generalize (str.bytes.length + 1) / stringSize + 1 = size at *
  have hfresh := fresh_poolAlloc h.valid hbound
  generalize s.arena.poolAlloc sizeofString = first at *
  obtain ⟨self, t⟩ := first
  generalize t.poolAlloc (stringSize * size) = second at *
  obtain ⟨data, t⟩ := second
  simp only at hfresh ⊢
  have hclear : 0 + stringSize * size ≤ stringSize * size := by omega
  have hcleared := hfresh.put (fun _ => 0) hclear
  have hempty : Builder.Spells (t.put data 0 (stringSize * size) fun _ => 0) ⟨self, size, 0, data⟩ [] :=
    hcleared.spells hbound (Nat.lt_of_le_of_lt (Nat.zero_le _) hroom) (List.not_mem_nil) fun i hi => by
      rw [Arena.put_byteAt, if_pos (by omega)]
      rfl
  have hbyte : ∀ i, i < str.bytes.length → (fun i => str.bytes.getD i 0) i = str.bytes.getD i 0 :=
    fun _ _ => rfl
  have hspells := hempty.put hcleared.valid hcleared.parts hbyte str.noNul (by simpa using hroom)
  simp only [List.nil_append, Nat.zero_add] at hspells
  have hcopied := hcleared.put (fun i => str.bytes.getD i 0)
    (show 0 + str.bytes.length ≤ stringSize * size by omega)
  have hroom' : 0 + stringSize * size ≤ t.requested data := by
    rw [hfresh.requested]
    exact hclear
  have hcopies : (Arena.put t data 0 (stringSize * size) fun _ => 0).Copies data 0 str.bytes.length (.text str) ∧
      0 + str.bytes.length ≤ (Arena.put t data 0 (stringSize * size) fun _ => 0).requested data := by
    refine ⟨Nat.le_succ _, ?_⟩
    rw [hcleared.requested]
    omega
  refine ⟨_, ?_, hcopied.add h hspells⟩
  simp only [Arena.clear, Arena.memcpy, if_pos hroom', if_pos hcopies, Option.bind_some, Option.map_some]
  rfl

/-- `copy_string`. -/
theorem copyString (h : Represents s a) (htext : a.text i = some text) :
    ∃ s', s.copyString i = some s' ∧ Represents s' (a.add text) := by
  obtain ⟨b, hb, hspells⟩ := h.builder_of htext
  have hcomm : b.size * stringSize = stringSize * b.size := Nat.mul_comm _ _
  have hfresh := fresh_poolAlloc h.valid hspells.small
  unfold Strings.copyString
  rw [hb, Option.bind_some, hcomm]
  generalize s.arena.poolAlloc sizeofString = first at *
  obtain ⟨self, t⟩ := first
  simp only at hfresh ⊢
  generalize t.poolAlloc (stringSize * b.size) = second at *
  obtain ⟨data, t⟩ := second
  simp only at hfresh ⊢
  have hkept := hfresh.kept b.data hspells.data
  have hne : b.data ≠ data := by
    rintro rfl
    exact hfresh.newData hspells.data
  have hcopied := hfresh.put (t.sourceByte (.data b.data))
    (show 0 + stringSize * b.size ≤ stringSize * b.size by omega)
  have hcopy := hcopied.spells hspells.small hspells.room hspells.noNul fun i hi => by
    rw [Arena.put_byteAt, if_pos (by omega)]
    exact (hkept.bytes i (hspells.requested.symm ▸ hi)).trans (hspells.bytes i hi)
  have hcopies : t.Copies data 0 (stringSize * b.size) (.data b.data) ∧
      0 + stringSize * b.size ≤ t.requested data := by
    refine ⟨⟨hfresh.valid.mapped (Or.inl hkept.inUse), ?_, fun heq => absurd heq hne⟩, ?_⟩
    · exact Nat.le_of_eq (hkept.requested.trans hspells.requested).symm
    · rw [hfresh.requested]
      omega
  refine ⟨_, ?_, hcopied.add h hcopy⟩
  simp only [Arena.memcpy, if_pos hcopies, Option.map_some, hspells.len]

/-- `string_append_char`, where the bytes can still be read after the growing. -/
theorem append (h : Represents s a) (hb : s.builder i = some b) (htext : a.text i = some text)
    {source : Source} (hstrlen : s.arena.strlen source = some more.length) (hnoNul : 0 ∉ more)
    (hlength : more.length < 2 ^ 31) (hfits : b.Fits more.length)
    (hreads : ∀ b' t, Grown s.arena b more.length text b' t → Reads t b'.data b.len more source) :
    ∃ s', s.append i source = some s' ∧ Represents s' (a.set i (some (text ++ more))) := by
  have hspells := h.held_of hb htext
  have hparts := h.parts i b hb
  obtain ⟨b', t, hgrow, hgrown⟩ := hspells.grow h.valid hparts hfits
  have hlen : b'.len = b.len := hgrown.spells.len.trans hspells.len.symm
  have hmod : more.length % 2 ^ 32 = more.length := Nat.mod_eq_of_lt (by omega)
  have hsum : b.len + more.length + 1 < 2 ^ 31 := by
    have hsmall := hgrown.spells.small
    have hroom := hgrown.room
    have := hspells.len
    omega
  obtain ⟨hcopies, hbyte⟩ := hreads b' t hgrown
  have hparts' : b'.self ≠ b'.data := by
    rw [hgrown.self]
    exact (hgrown.other b.self hspells.self hparts).2
  have hin : b'.len + more.length ≤ t.requested b'.data := by
    rw [hgrown.spells.requested, hgrown.spells.len]
    exact Nat.le_of_lt hgrown.room
  have hput := hgrown.spells.put hgrown.valid hparts' hbyte hnoNul hgrown.room
  have hother : ∀ c, s.arena.InUse c → c ≠ b.data →
      s.arena.Kept (t.put b'.data b'.len more.length (t.sourceByte source)) c ∧ c ≠ b'.data := by
    intro c hc hne
    obtain ⟨hkept, hnew⟩ := hgrown.other c hc hne
    exact ⟨hkept.trans (hgrown.valid.put_kept _ hgrown.spells.data hin hkept.inUse hnew), hnew⟩
  refine ⟨_, ?_, h.set hb (hgrown.valid.put _ _ _ _) ?_ ?_ hput⟩
  · unfold Strings.append
    rw [hb, Option.bind_some, hstrlen, Option.bind_some]
    simp only [hmod]
    rw [← hlen] at hcopies
    rw [if_pos ⟨hlength, hsum⟩, hgrow, Option.bind_some]
    simp only [Arena.memcpy, if_pos (And.intro hcopies hin), Option.map_some]
  · exact hother
  · exact hgrown.self

/-- `string_append_string`. -/
theorem stringAppendString (h : Represents s a) {c : Builder} (hb : s.builder i = some b)
    (hc : s.builder j = some c) (htext : a.text i = some text) (hmore : a.text j = some more)
    (hfits : b.Fits c.len) (hself : ¬ (i = j ∧ 64 ≤ b.size ∧ b.Grows b.len)) :
    ∃ s', s.stringAppendString i j = some s' ∧ Represents s' (a.set i (some (text ++ more))) := by
  have hspells := h.held_of hb htext
  have hspells' := h.held_of hc hmore
  have hroom := hspells'.room
  have hsmall := hspells'.small
  have hlen := hspells.len
  unfold Strings.stringAppendString
  rw [hc, Option.bind_some]
  refine h.append hb htext (hspells'.strlen h.valid) hspells'.noNul (by omega) (hspells'.len ▸ hfits) ?_
  intro b' t hgrown
  by_cases hij : i = j
  · subst hij
    rw [hb] at hc
    cases hc
    rw [htext] at hmore
    cases hmore
    -- the data that are appended are those that may have been reallocated
    obtain ⟨hmapped, hrequested, hbytes⟩ := hgrown.source fun hcond => hself ⟨rfl, hcond.1, hlen ▸ hcond.2⟩
    refine ⟨⟨hmapped, by omega, fun _ => by omega⟩, fun k hk => ?_⟩
    exact (hbytes k (by omega)).trans (hspells.bytes k (by omega))
  · have hne : c.data ≠ b.data := by
      intro heq
      exact hij (h.apart i j b c b.data hb hc (Or.inr rfl) (Or.inr heq.symm))
    obtain ⟨hkept, hnew⟩ := hgrown.other c.data hspells'.data hne
    refine ⟨⟨hgrown.valid.mapped (Or.inl hkept.inUse), ?_, fun heq => absurd heq hnew⟩, fun k hk => ?_⟩
    · rw [hkept.requested, hspells'.requested]
      omega
    · have hin : k < stringSize * c.size := Nat.lt_trans hk hroom
      exact (hkept.bytes k (hspells'.requested.symm ▸ hin)).trans (hspells'.bytes k hin)

/-- The data of a `String` that grows by itself have gone back to the system when they are copied. -/
theorem stringAppendString_self (h : Represents s a) (hb : s.builder i = some b) (hlarge : 64 ≤ b.size)
    (hgrows : b.Grows b.len) : s.stringAppendString i i = none := by
  obtain ⟨text, -, hspells⟩ := h.held i b hb
  have hneed : b.size * stringSize < b.len + b.len + 1 := hgrows
  have hheader := (hspells.large_iff h.valid).mpr hlarge
  have hgone : ∀ b' t, s.grow b b.len = some (b', t) → ¬ t.Mapped b.data := by
    intro b' t hgrow
    unfold Strings.grow at hgrow
    rw [if_pos hneed] at hgrow
    simp only at hgrow
    split at hgrow
    · rename_i hsmall
      have hsmall' : ((b.len + b.len + 1) / stringSize + 1) * stringSize + poolHeaderSize < 2 ^ 32 := by
        unfold poolHeaderSize
        rw [Nat.mul_comm]
        omega
      have hfits : ¬ s.arena.mem.fits () b.data (((b.len + b.len + 1) / stringSize + 1) * stringSize) = true := by
        intro hfits
        have hroom := h.valid.laid.of_fits (by decide) (by decide) hspells.data hsmall' hfits
        have hown := hspells.own hheader
        unfold stringSize poolHeaderSize at *
        omega
      obtain ⟨hmoved, hne⟩ := h.valid.poolRealloc_moves (by decide) (by decide) hspells.data hsmall' hfits
      obtain ⟨t', hclear, heq⟩ := Option.map_eq_some_iff.mp hgrow
      cases heq
      unfold Arena.clear at hclear
      split at hclear
      · cases hclear
        exact hmoved.gone hne hheader
      · cases hclear
    · cases hgrow
  unfold Strings.stringAppendString Strings.append
  rw [hb, Option.bind_some, Option.bind_some, hspells.strlen h.valid, Option.bind_some]
  simp only
  split
  · rename_i hlen
    have hmod : text.length % 2 ^ 32 = b.len := by
      have hroom := hspells.room
      have hsmall := hspells.small
      rw [hspells.len]
      omega
    rw [hmod]
    cases hgrow : s.grow b b.len with
    | none => rfl
    | some grown =>
      obtain ⟨b', t⟩ := grown
      have hcopies : ¬ (t.Copies b'.data b'.len b.len (.data b.data) ∧
          b'.len + b.len ≤ t.requested b'.data) := fun hc => hgone b' t hgrow hc.1.1
      simp only [Option.bind_some, Arena.memcpy, if_neg hcopies, Option.map_none]
  · rfl

/-! ## Runs -/

/-- Before the first call. -/
theorem init (bytes : Nat → Nat → UInt8) : Represents (Strings.init bytes) Texts.init :=
  ⟨Arena.valid_create 13 bytes, rfl, fun _ _ => rfl, nofun, fun _ _ => rfl, nofun, nofun⟩

/-- What a call preserves. -/
theorem step (h : Represents s a) {c : StringCall} (careful : s.Careful c) {a' : Texts}
    (hstep : a.step c = some a') : ∃ s', s.step c = some s' ∧ Represents s' a' := by
  cases c with
  | initString str =>
    cases hstep
    exact h.initString careful
  | stringAppendChar i str =>
    obtain ⟨text, htext, heq⟩ := Option.map_eq_some_iff.mp hstep
    obtain ⟨b, hb, hspells⟩ := h.builder_of htext
    subst heq
    have hfits : b.Fits str.bytes.length := careful b hb
    have hroom := hspells.room
    have hsmall := hspells.small
    have hcomm : b.size * stringSize = stringSize * b.size := Nat.mul_comm _ _
    have hlength : str.bytes.length < 2 ^ 31 := by
      by_cases hgrows : b.Grows str.bytes.length
      · have := hfits hgrows
        omega
      · have hneed : ¬ b.size * stringSize < b.len + str.bytes.length + 1 := hgrows
        omega
    exact h.append hb htext rfl str.noNul hlength hfits fun b' t _ => reads_text t _ _ str
  | stringAppendString i j =>
    obtain ⟨text, htext, hmap⟩ := Option.bind_eq_some_iff.mp hstep
    obtain ⟨more, hmore, heq⟩ := Option.map_eq_some_iff.mp hmap
    obtain ⟨b, hb, -⟩ := h.builder_of htext
    obtain ⟨c, hc, -⟩ := h.builder_of hmore
    obtain ⟨hfits, hself⟩ := careful b hb c hc
    subst heq
    exact h.stringAppendString hb hc htext hmore hfits hself
  | copyString i =>
    obtain ⟨text, htext, heq⟩ := Option.map_eq_some_iff.mp hstep
    subst heq
    exact h.copyString htext
  | freeString i =>
    obtain ⟨text, htext, heq⟩ := Option.map_eq_some_iff.mp hstep
    subst heq
    exact h.freeString htext

/-- What the calls of a list preserve. -/
theorem runAll {calls : List StringCall} (h : Represents s a) {a' : Texts}
    (texts : Transition.runAll Texts.step calls a = some a')
    (careful : Transition.Holds Strings.step Strings.Careful calls s) :
    ∃ s', Transition.runAll Strings.step calls s = some s' ∧ Represents s' a' := by
  induction calls generalizing s a with
  | nil =>
    cases texts
    exact ⟨s, rfl, h⟩
  | cons c rest ih =>
    cases hstep : a.step c with
    | none =>
      rw [Transition.runAll, hstep] at texts
      cases texts
    | some b =>
      rw [Transition.runAll, hstep] at texts
      obtain ⟨t, hcall, hnext⟩ := h.step careful.1 hstep
      have hrest := careful.2
      rw [hcall] at hrest
      obtain ⟨s', hrun, hrep⟩ := ih hnext texts hrest
      refine ⟨s', ?_, hrep⟩
      rw [Transition.runAll, hcall]
      exact hrun

end Represents

/-- The calls work as long as no length comes near to 2^31 and no `String` grows by itself that has a block of
its own. -/
theorem run_represents (bytes : Nat → Nat → UInt8) {calls : List StringCall} {a : Texts}
    (texts : Transition.runAll Texts.step calls Texts.init = some a)
    (careful : Transition.Holds Strings.step Strings.Careful calls (Strings.init bytes)) :
    ∃ s, Transition.runAll Strings.step calls (Strings.init bytes) = some s ∧ Represents s a :=
  (Represents.init bytes).runAll texts careful

theorem run_represents_self :
    ∃ s, Transition.runAll Strings.step
        [.initString ⟨[97, 98], by decide⟩, .copyString 0, .stringAppendChar 0 ⟨[99], by decide⟩,
          .stringAppendString 0 0, .stringAppendString 1 0, .freeString 0] (Strings.init fun _ _ => 7) = some s ∧
      Represents s ((((((Texts.init.add [97, 98]).add [97, 98]).set 0 (some [97, 98, 99])).set 0
        (some [97, 98, 99, 97, 98, 99])).set 1 (some [97, 98, 97, 98, 99, 97, 98, 99])).set 0 none) :=
  run_represents (fun _ _ => 7) rfl (by decide +kernel)

/-- The size of a new `String`. -/
theorem Strings.size_initString {s s' : Strings} {str : CStr} (h : s.initString str = some s') :
    ∃ b, s'.builder s.next = some b ∧ b.size = ((str.bytes.length + 1) / stringSize + 1) % 2 ^ 32 := by
  unfold Strings.initString at h
  simp only at h
  split at h
  · obtain ⟨t, -, rfl⟩ := Option.map_eq_some_iff.mp h
    exact ⟨_, s.add_self _ _, rfl⟩
  · cases h

/-- A `String` of 8064 bytes has a block of its own, and is read when that is gone. -/
theorem runAll_initString_self (bytes : Nat → Nat → UInt8) {str : CStr} (hlength : str.bytes.length = 8064) :
    Transition.runAll Strings.step [.initString str, .stringAppendString 0 0] (Strings.init bytes) = none := by
  have hsmall : str.bytes.length + 1 + stringSize < 2 ^ 31 := by
    rw [hlength]
    decide
  obtain ⟨s, hinit, hrep⟩ := (Represents.init bytes).initString hsmall
  obtain ⟨b, hb, hsize⟩ := Strings.size_initString hinit
  obtain ⟨text, htext, hspells⟩ := hrep.held _ b hb
  have htext' : (Texts.init.add str.bytes).text 0 = some str.bytes := Texts.init.add_self _
  have hlen : b.len = 8064 := by
    rw [hspells.len, ← hlength]
    exact congrArg List.length (Option.some.inj (htext.symm.trans htext'))
  rw [hlength] at hsize
  have hnone : s.stringAppendString 0 0 = none := by
    refine hrep.stringAppendString_self hb ?_ ?_
    · rw [hsize]
      decide
    · unfold Builder.Grows
      rw [hsize, hlen]
      decide
  simp only [Transition.runAll, Strings.step, hinit, hnone]

/-- A long `String` is appended to itself. -/
theorem not_run_represents :
    ∃ str : CStr, Transition.runAll Texts.step [.initString str, .stringAppendString 0 0] Texts.init =
        some ((Texts.init.add str.bytes).set 0 (some (str.bytes ++ str.bytes))) ∧
      Transition.runAll Strings.step [.initString str, .stringAppendString 0 0]
        (Strings.init fun _ _ => 0) = none :=
  have hnoNul : 0 ∉ List.replicate 8064 (97 : UInt8) := fun h =>
    absurd (List.eq_of_mem_replicate h) (by decide)
  ⟨⟨List.replicate 8064 97, hnoNul⟩, rfl, runAll_initString_self _ List.length_replicate⟩

end PgPool
