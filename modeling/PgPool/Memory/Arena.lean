import PgPool.Memory.Layout
import PgPool.Lib.Transition
import Mathlib.Data.List.GetD

/-!
# One pool

A pool by itself, with the contents of its chunks: chunks in use do not overlap, lie in blocks and have room
for what has been asked for, as long as no size comes near to 2^32.
-/

namespace PgPool

open Region

/-! ## Calls -/

/-- The pool, the bytes of its blocks, and what each chunk has been asked for. -/
structure Arena where
  mem : Memory Unit
  bytes : Nat → Nat → UInt8
  requested : Chunk → Nat

/-- The calls on a pool, and that somebody writes to a chunk. -/
inductive ArenaCall where
  | alloc (size : Nat)
  | strdup (string : List UInt8)
  | realloc (chunk : Chunk) (size : Nat)
  | free (chunk : Chunk)
  | write (chunk : Chunk) (i : Nat) (b : UInt8)

/-- A byte of a chunk, behind the header. -/
def Chunk.at (chunk : Chunk) (i : Nat) : Nat := chunk.offset + poolHeaderSize + i

namespace Arena

variable (s : Arena)

/-- `pool_memory_create`. -/
def create (blocksize : Nat) (bytes : Nat → Nat → UInt8) : Arena where
  mem := Memory.poolMemoryCreate () blocksize ⟨fun _ => .empty 0, fun _ => 0, 0, []⟩
  bytes := bytes
  requested := fun _ => 0

/-- Copy some bytes to the start of a chunk. -/
def move (chunk : Chunk) (n : Nat) (byte : Nat → UInt8) : Nat → Nat → UInt8 := fun block off =>
  if block = chunk.block ∧ chunk.at 0 ≤ off ∧ off < chunk.at n then byte (off - chunk.at 0)
  else s.bytes block off

/-- `pool_memory_alloc`. -/
def poolAlloc (size : Nat) : Chunk × Arena :=
  let (chunk, mem) := s.mem.poolMemoryAlloc () size
  (chunk, { s with mem, requested := Function.update s.requested chunk size })

/-- `pool_memory_strdup`.  The length is an `int`; `memmove` takes a negative one for a size. -/
def poolStrdup (string : List UInt8) : Option (Chunk × Arena) :=
  let len := string.length % 2 ^ 32
  if len + 1 < 2 ^ 31 then
    let (chunk, t) := s.poolAlloc (len + 1)
    some (chunk, { t with bytes := t.move chunk (len + 1) fun i => if i < len then string.getD i 0 else 0 })
  else none

/-- `pool_memory_realloc`: `memmove` takes all that the old chunk has room for. -/
def poolRealloc (chunk : Chunk) (size : Nat) : Chunk × Arena :=
  let (p, mem) := s.mem.poolMemoryRealloc () chunk size
  let old := fun i => s.bytes chunk.block (chunk.at i)
  (p, {
    mem := mem
    bytes := if s.mem.fits () chunk size then s.bytes else s.move p (s.mem.size chunk - poolHeaderSize) old
    requested := Function.update s.requested p size })

/-- `pool_memory_free`. -/
def poolFree (chunk : Chunk) : Arena := { s with mem := s.mem.poolMemoryFree () chunk }

/-- A byte is stored in a chunk. -/
def store (chunk : Chunk) (i : Nat) (b : UInt8) : Arena :=
  { s with
    bytes := Function.update s.bytes chunk.block (Function.update (s.bytes chunk.block) (chunk.at i) b) }

/-- The chunk that a call returns, and what the pool is then.  `none`: memory is written that the chunk does
not have. -/
def call : ArenaCall → Option (Option Chunk × Arena)
  | .alloc size => some (some (s.poolAlloc size).1, (s.poolAlloc size).2)
  | .strdup string => (s.poolStrdup string).map fun result => (some result.1, result.2)
  | .realloc chunk size => some (some (s.poolRealloc chunk size).1, (s.poolRealloc chunk size).2)
  | .free chunk => some (none, s.poolFree chunk)
  | .write chunk i b => some (none, s.store chunk i b)

def step (c : ArenaCall) : Option Arena := (s.call c).map Prod.snd

/-- The chunk has been returned, and not freed since. -/
def InUse (chunk : Chunk) : Prop := Live () chunk s.mem.log

/-- Only chunks in use are freed, reallocated and written to, and what is written has been asked for. -/
def Permitted : ArenaCall → Prop
  | .realloc chunk _ | .free chunk => s.InUse chunk
  | .write chunk i _ => s.InUse chunk ∧ i < s.requested chunk
  | .alloc _ | .strdup _ => True

end Arena

/-- The condition on a call: the size of a chunk and its header fits into the header, and that of a
string into an `int`. -/
def ArenaCall.Small : ArenaCall → Prop
  | .alloc size | .realloc _ size => size + poolHeaderSize < 2 ^ 32
  | .strdup string => string.length + 1 < 2 ^ 31
  | .free _ | .write _ _ _ => True

instance : ∀ c : ArenaCall, Decidable c.Small
  | .alloc size => inferInstanceAs (Decidable (size + poolHeaderSize < 2 ^ 32))
  | .realloc _ size => inferInstanceAs (Decidable (size + poolHeaderSize < 2 ^ 32))
  | .strdup string => inferInstanceAs (Decidable (string.length + 1 < 2 ^ 31))
  | .free _ | .write _ _ _ => inferInstanceAs (Decidable True)

/-! ## What is to hold -/

/-- `SLOT_NUM`. -/
def slotNum : Nat := 11

namespace Arena

/-- What holds between two calls. -/
structure Sound (s : Arena) : Prop where
  apart : ∀ a b, s.InUse a → s.InUse b → a ≠ b → s.mem.Apart a b
  inside : ∀ a, s.InUse a → ∃ b ∈ (s.mem.pool ()).blocks ++ (s.mem.pool ()).largeblocks,
    b.address = a.block ∧ a.offset + s.mem.size a ≤ b.size
  large : ∀ a, s.InUse a → s.requested a + poolHeaderSize ≤ s.mem.size a
  blocks : (s.mem.pool ()).addresses.Nodup
  slots : ∀ i a, a ∈ (s.mem.pool ()).freelist i → i < slotNum

/-- A chunk that is returned again is the first of the free list for the size, which is that of the
chunk. -/
def Recycled (s : Arena) (chunk : Chunk) (size : Nat) : Prop :=
  Returned () chunk s.mem.log →
    s.mem.size chunk = 2 ^ (getFreeIndex (size + poolHeaderSize) + align) ∧
      ((s.mem.pool ()).freelist (getFreeIndex (size + poolHeaderSize))).head? = some chunk

/-- The chunk is a new one for the size. -/
def Handed (s : Arena) (chunk : Chunk) (size : Nat) : Prop := ¬ s.InUse chunk ∧ s.Recycled chunk size

/-- What a call returns and does. -/
def CallSound (s : Arena) : ArenaCall → Option Chunk → Arena → Prop
  | .alloc size, some p, t => t.InUse p ∧ s.Handed p size
  | .strdup string, some p, t =>
      t.InUse p ∧ s.Handed p (string.length + 1) ∧
        ∀ i, i ≤ string.length → t.bytes p.block (p.at i) = string.getD i 0
  | .realloc chunk size, some p, t =>
      t.InUse p ∧ (p ≠ chunk → s.Handed p size ∧ ¬ t.InUse chunk) ∧
        ∀ i, i < min (s.requested chunk) size → t.bytes p.block (p.at i) = s.bytes chunk.block (chunk.at i)
  | .free chunk, none, t => ¬ t.InUse chunk
  | .write chunk i b, none, t => t.bytes chunk.block (chunk.at i) = b
  | _, _, _ => False

/-! ## Runs -/

/-- The state of a pool and what has been asked for. -/
structure Valid (k : Nat) (s : Arena) : Prop where
  laid : s.mem.Laid k
  large : ∀ a, s.InUse a → s.requested a + poolHeaderSize ≤ s.mem.size a

variable {s t : Arena} {k size : Nat} {chunk : Chunk}

theorem Valid.sound (h : Valid k s) (hslots : k < slotNum + align) : s.Sound where
  apart a b ha hb hab := h.laid.apart a b (Or.inl ha) (Or.inl hb) hab
  inside a ha := by
    rcases h.laid.placed a (Or.inl ha) with ⟨i, -, -, b, hb, hadd, hle⟩ | ⟨-, b, hb, rfl, hsize⟩
    · obtain ⟨hsize, hfree⟩ := h.laid.blocks b hb
      refine ⟨b, List.mem_append_left _ hb, hadd, ?_⟩
      rw [hsize]
      exact Nat.le_trans hle hfree
    · refine ⟨b, List.mem_append_right _ hb, rfl, ?_⟩
      rw [hsize]
      exact Nat.le_of_eq (Nat.zero_add _)
  large := h.large
  blocks := (h.laid.formed.distinct ()).addresses
  slots i a ha := by
    have hle := (h.laid.lists i a ha).2
    omega

theorem valid_create (k : Nat) (bytes : Nat → Nat → UInt8) : Valid k (create (2 ^ k) bytes) where
  laid := Memory.laid_poolMemoryCreate k _ rfl
  large a ha := absurd (show Live () a [] from ha) id

/-- A byte that has been copied. -/
theorem move_at (s : Arena) (chunk : Chunk) {n i : Nat} (hi : i < n) (byte : Nat → UInt8) :
    s.move chunk n byte chunk.block (chunk.at i) = byte i := by
  have hrange : chunk.at 0 ≤ chunk.at i ∧ chunk.at i < chunk.at n := by
    unfold Chunk.at
    omega
  have hsub : chunk.at i - chunk.at 0 = i := by
    unfold Chunk.at
    omega
  rw [move, if_pos ⟨rfl, hrange⟩, hsub]

theorem Valid.poolAlloc (h : Valid k s) (hsmall : size + poolHeaderSize < 2 ^ 32) :
    Valid k (s.poolAlloc size).2 ∧ (s.poolAlloc size).2.InUse (s.poolAlloc size).1 ∧
      s.Handed (s.poolAlloc size).1 size := by
  obtain ⟨hlaid, hlarge, hsizes, hrec⟩ := h.laid.poolMemoryAlloc hsmall
  have hlog : (s.poolAlloc size).2.mem.log = .alloc () (s.poolAlloc size).1 :: s.mem.log :=
    Memory.log_poolMemoryAlloc
  have hdead := (h.laid.formed.poolMemoryAlloc () size).2 ()
  refine ⟨⟨hlaid, fun a ha => ?_⟩, ?_, hdead, hrec⟩
  · show Function.update s.requested (s.poolAlloc size).1 size a + poolHeaderSize ≤ _
    by_cases hac : a = (s.poolAlloc size).1
    · rw [hac, Function.update_self]
      exact hlarge
    · rw [InUse, hlog] at ha
      have hl : s.InUse a := ha.resolve_left fun hnew => hac hnew.2.1.symm
      rw [Function.update_of_ne hac]
      exact Nat.le_trans (h.large a hl) (Nat.le_of_eq (hsizes a hl).symm)
  · rw [InUse, hlog]
    exact Or.inl ⟨rfl, rfl, h.laid.created⟩

theorem Valid.poolStrdup (h : Valid k s) {string : List UInt8} (hsmall : string.length + 1 < 2 ^ 31) :
    ∃ p t, s.poolStrdup string = some (p, t) ∧ Valid k t ∧ s.CallSound (.strdup string) (some p) t := by
  have hlen : string.length % 2 ^ 32 = string.length := Nat.mod_eq_of_lt (by omega)
  have halloc : string.length + 1 + poolHeaderSize < 2 ^ 32 := by
    unfold poolHeaderSize
    omega
  have hcopy : s.poolStrdup string = some ((s.poolAlloc (string.length + 1)).1,
      { (s.poolAlloc (string.length + 1)).2 with
        bytes := (s.poolAlloc (string.length + 1)).2.move (s.poolAlloc (string.length + 1)).1
          (string.length + 1) fun i => if i < string.length then string.getD i 0 else 0 }) := by
    unfold Arena.poolStrdup
    rw [hlen]
    exact if_pos hsmall
  obtain ⟨hvalid, hin, hhanded⟩ := h.poolAlloc halloc
  refine ⟨_, _, hcopy, ⟨hvalid.laid, hvalid.large⟩, hin, hhanded, fun i hi => ?_⟩
  have hbyte := move_at (s.poolAlloc (string.length + 1)).2 (s.poolAlloc (string.length + 1)).1
    (Nat.lt_succ_of_le hi) fun i => if i < string.length then string.getD i 0 else 0
  refine Eq.trans hbyte ?_
  by_cases hlt : i < string.length
  · rw [if_pos hlt]
  · rw [if_neg hlt, List.getD_eq_default _ _ (Nat.le_of_not_lt hlt)]

theorem Valid.poolFree (h : Valid k s) (hk : k ≤ 32) (hl : s.InUse chunk) :
    Valid k (s.poolFree chunk) ∧ ¬ (s.poolFree chunk).InUse chunk :=
  ⟨⟨h.laid.poolMemoryFree hk hl, fun a ha => h.large a ha.2⟩, fun ha => ha.1 rfl⟩

/-- The chunk is used again. -/
theorem poolRealloc_fits (hfits : s.mem.fits () chunk size = true) :
    s.poolRealloc chunk size = (chunk, { s with
      mem := s.mem.note (.resize () chunk)
      requested := Function.update s.requested chunk size }) := by
  have hkept : s.mem.poolMemoryRealloc () chunk size = (chunk, s.mem.note (.resize () chunk)) :=
    if_pos hfits
  unfold Arena.poolRealloc
  simp only [hkept, if_pos hfits]

/-- The chunk is allocated anew. -/
theorem poolRealloc_moves (hfits : ¬ s.mem.fits () chunk size = true) {p : Chunk} {t : Arena}
    (halloc : Arena.poolAlloc { s with mem := s.mem.note (.resize () chunk) } size = (p, t)) :
    s.poolRealloc chunk size = (p, { t.poolFree chunk with
      bytes := s.move p (s.mem.size chunk - poolHeaderSize) fun i =>
        s.bytes chunk.block (chunk.at i) }) := by
  have hrealloc : s.mem.poolMemoryRealloc () chunk size =
      (((s.mem.note (.resize () chunk)).poolMemoryAlloc () size).1,
        ((s.mem.note (.resize () chunk)).poolMemoryAlloc () size).2.poolMemoryFree () chunk) := if_neg hfits
  unfold Arena.poolRealloc
  simp only [hrealloc, if_neg hfits]
  cases halloc
  rfl

theorem Valid.poolRealloc (h : Valid k s) (halign : align ≤ k) (hk : k ≤ 32) (hl : s.InUse chunk)
    (hsmall : size + poolHeaderSize < 2 ^ 32) :
    Valid k (s.poolRealloc chunk size).2 ∧
      s.CallSound (.realloc chunk size) (some (s.poolRealloc chunk size).1)
        (s.poolRealloc chunk size).2 := by
  by_cases hfits : s.mem.fits () chunk size = true
  · have hroom := h.laid.of_fits halign hk hl hsmall hfits
    rw [poolRealloc_fits hfits]
    refine ⟨⟨h.laid.note_resize chunk, fun a ha => ?_⟩, hl, fun hne => absurd rfl hne, fun i hi => rfl⟩
    show Function.update s.requested chunk size a + poolHeaderSize ≤ s.mem.size a
    by_cases hac : a = chunk
    · rw [hac, Function.update_self]
      exact hroom
    · rw [Function.update_of_ne hac]
      exact h.large a ha
  · have hnote : Valid k { s with mem := s.mem.note (.resize () chunk) } :=
      ⟨h.laid.note_resize chunk, h.large⟩
    obtain ⟨halloc, hin, hhanded⟩ := hnote.poolAlloc hsmall
    have hlog : (Arena.poolAlloc { s with mem := s.mem.note (.resize () chunk) } size).2.mem.log =
        .alloc () (Arena.poolAlloc { s with mem := s.mem.note (.resize () chunk) } size).1 ::
          .resize () chunk :: s.mem.log := Memory.log_poolMemoryAlloc
    generalize hnew : Arena.poolAlloc { s with mem := s.mem.note (.resize () chunk) } size = new at *
    obtain ⟨p, t⟩ := new
    have hchunk : t.InUse chunk := by
      rw [InUse, hlog]
      exact Or.inr hl
    obtain ⟨hfree, hgone⟩ := halloc.poolFree hk hchunk
    have hne : chunk ≠ p := by
      rintro rfl
      exact hhanded.1 hl
    rw [poolRealloc_moves hfits hnew]
    refine ⟨⟨hfree.laid, hfree.large⟩, ⟨hne, hin⟩, fun _ => ⟨hhanded, hgone⟩, fun i hi => ?_⟩
    have hlarge := h.large chunk hl
    have hcopied : i < s.mem.size chunk - poolHeaderSize := by omega
    exact move_at s p hcopied fun i => s.bytes chunk.block (chunk.at i)

/-- What a call preserves. -/
theorem Valid.call (h : Valid k s) (halign : align ≤ k) (hk : k ≤ 32) {c : ArenaCall}
    (permitted : s.Permitted c)
    (small : c.Small) : ∃ p t, s.call c = some (p, t) ∧ Valid k t ∧ s.CallSound c p t := by
  cases c with
  | alloc size =>
    obtain ⟨hvalid, hsound⟩ := h.poolAlloc small
    exact ⟨_, _, rfl, hvalid, hsound⟩
  | strdup string =>
    obtain ⟨p, t, hcall, hvalid, hsound⟩ := h.poolStrdup small
    exact ⟨some p, t, by rw [Arena.call, hcall]; rfl, hvalid, hsound⟩
  | realloc chunk size =>
    obtain ⟨hvalid, hsound⟩ := h.poolRealloc halign hk permitted small
    exact ⟨_, _, rfl, hvalid, hsound⟩
  | free chunk =>
    obtain ⟨hvalid, hsound⟩ := h.poolFree hk permitted
    exact ⟨_, _, rfl, hvalid, hsound⟩
  | write chunk i b =>
    refine ⟨_, _, rfl, ⟨h.laid, h.large⟩, ?_⟩
    show Function.update s.bytes chunk.block _ chunk.block (chunk.at i) = b
    rw [Function.update_self, Function.update_self]

theorem Valid.step (h : Valid k s) (halign : align ≤ k) (hk : k ≤ 32) {c : ArenaCall}
    (permitted : s.Permitted c)
    (small : c.Small) (next : s.step c = some t) : Valid k t := by
  obtain ⟨p, u, hcall, hvalid, -⟩ := h.call halign hk permitted small
  rw [Arena.step, hcall] at next
  cases next
  exact hvalid

/-- As long as no size comes near to 2^32, chunks in use are apart, in blocks and large enough, and
every call does what it is for. -/
theorem run_sound (halign : align ≤ k) (hslots : k < slotNum + align) {bytes : Nat → Nat → UInt8}
    (run : Transition.Run Arena.step (fun s c => s.Permitted c ∧ c.Small) (create (2 ^ k) bytes) s) :
    s.Sound ∧ ∀ c, s.Permitted c → c.Small → ∃ p t, s.call c = some (p, t) ∧ s.CallSound c p t := by
  have hk : k ≤ 32 := by
    unfold slotNum align at hslots
    omega
  have hvalid : Valid k s := run.invariant
    (fun s c t h ok next => h.step halign hk ok.1 ok.2 next) (valid_create k bytes)
  refine ⟨hvalid.sound hslots, fun c permitted small => ?_⟩
  obtain ⟨p, t, hcall, -, hsound⟩ := hvalid.call halign hk permitted small
  exact ⟨p, t, hcall, hsound⟩

theorem run_sound_realloc :
    ((create (2 ^ 13) fun _ _ => 0).poolAlloc 100).2.Sound ∧
      ∃ p t, ((create (2 ^ 13) fun _ _ => 0).poolAlloc 100).2.call (.realloc ⟨0, 0⟩ 200) = some (p, t) ∧
        ((create (2 ^ 13) fun _ _ => 0).poolAlloc 100).2.CallSound (.realloc ⟨0, 0⟩ 200) p t := by
  have hlive : ((create (2 ^ 13) fun _ _ => 0).poolAlloc 100).2.InUse ⟨0, 0⟩ :=
    Or.inl ⟨rfl, rfl, Or.inl rfl⟩
  obtain ⟨hsound, hcall⟩ := run_sound (k := 13) (by decide) (by decide)
    (Transition.Run.step .refl (.alloc 100) ⟨trivial, by decide⟩ rfl)
  exact ⟨hsound, hcall (.realloc ⟨0, 0⟩ 200) hlive (by decide)⟩

/-- A chunk whose size does not fit into its header is used again for every size. -/
theorem run_wrapped {n : Nat} (hlarge : parserBlockSize < n + poolHeaderSize)
    (hwrap : (n + poolHeaderSize) % 2 ^ 32 < poolHeaderSize) (r : Nat) :
    ∃ s, Transition.Run Arena.step Arena.Permitted (create parserBlockSize fun _ _ => 0) s ∧
      s.InUse ⟨0, 0⟩ ∧ s.requested ⟨0, 0⟩ = r ∧
      (s.mem.pool ()).blocks ++ (s.mem.pool ()).largeblocks =
        [⟨0, n + poolHeaderSize, n + poolHeaderSize, n + poolHeaderSize⟩] := by
  have halloc : (create parserBlockSize fun _ _ => 0).poolAlloc n =
      (⟨0, 0⟩, ⟨((create parserBlockSize fun _ _ => 0).mem.allocLarge () n).2.note (.alloc () ⟨0, 0⟩),
        fun _ _ => 0, Function.update (fun _ => 0) ⟨0, 0⟩ n⟩) := by
    have hmem : (create parserBlockSize fun _ _ => 0).mem.poolMemoryAlloc () n =
        (⟨0, 0⟩,
          ((create parserBlockSize fun _ _ => 0).mem.allocLarge () n).2.note (.alloc () ⟨0, 0⟩)) := by
      unfold Memory.poolMemoryAlloc
      have hsize : ((create parserBlockSize fun _ _ => 0).mem.pool ()).blocksize < n + poolHeaderSize :=
        hlarge
      rw [if_pos hsize]
      rfl
    unfold Arena.poolAlloc
    rw [hmem]
    rfl
  generalize hs : Arena.mk _ _ _ = s at halloc
  have hlive : s.InUse ⟨0, 0⟩ := by
    rw [← hs]
    exact Or.inl ⟨rfl, rfl, Or.inl rfl⟩
  have hfits : s.mem.fits () ⟨0, 0⟩ r = true := by
    have hheader : s.mem.size ⟨0, 0⟩ < poolHeaderSize := by
      rw [← hs]
      exact hwrap
    unfold Memory.fits
    rw [decide_eq_true hheader, Bool.true_or, Bool.true_or]
  have hstep : (create parserBlockSize fun _ _ => 0).step (.alloc n) = some s := by
    rw [Arena.step, Arena.call, halloc]
    rfl
  have hkept : s.step (.realloc ⟨0, 0⟩ r) = some { s with
      mem := s.mem.note (.resize () ⟨0, 0⟩)
      requested := Function.update s.requested ⟨0, 0⟩ r } := by
    rw [Arena.step, Arena.call, poolRealloc_fits hfits]
    rfl
  refine ⟨_, .step (.step .refl (.alloc n) trivial hstep) (.realloc ⟨0, 0⟩ r) hlive hkept, hlive,
    Function.update_self (⟨0, 0⟩ : Chunk) r s.requested, ?_⟩
  rw [← hs]
  rfl

/-- A chunk of 2^32 bytes has the size 0 in its header, and is said to have room for 2^32 - 1 bytes
more than the header. -/
theorem not_sound_wrapped :
    ∃ s, Transition.Run Arena.step Arena.Permitted (create parserBlockSize fun _ _ => 0) s ∧ ¬ s.Sound ∧
      s.InUse ⟨0, 0⟩ ∧ ∀ b ∈ (s.mem.pool ()).blocks ++ (s.mem.pool ()).largeblocks,
        b.address = 0 → b.size < s.requested ⟨0, 0⟩ + poolHeaderSize := by
  obtain ⟨s, hrun, hlive, hrequested, hblocks⟩ :=
    run_wrapped (n := 2 ^ 32 - 8) (by decide) (by decide) (2 ^ 32 - 1)
  have hshort : ∀ b ∈ (s.mem.pool ()).blocks ++ (s.mem.pool ()).largeblocks,
      b.address = 0 → b.size < s.requested ⟨0, 0⟩ + poolHeaderSize := by
    intro b hb _
    rw [hblocks, List.mem_singleton] at hb
    rw [hb, hrequested]
    decide
  refine ⟨s, hrun, fun h => ?_, hlive, hshort⟩
  obtain ⟨b, hb, hadd, hle⟩ := h.inside ⟨0, 0⟩ hlive
  have hlarge := h.large ⟨0, 0⟩ hlive
  have hlt := hshort b hb hadd
  omega

end Arena

end PgPool
