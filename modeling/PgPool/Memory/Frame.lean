import PgPool.Memory.Arena

/-!
# What a call leaves alone

A call on a pool is about one chunk at most.  The other chunks in use stay so, with their sizes and their
bytes.
-/

namespace PgPool

namespace Arena

variable {s t : Arena} {k size : Nat} {a chunk : Chunk}

/-! ## Bytes of a chunk -/

/-- Overwrite some bytes of a chunk. -/
def put (s : Arena) (chunk : Chunk) (start n : Nat) (byte : Nat → UInt8) : Arena :=
  { s with
    bytes := fun block off =>
      if block = chunk.block ∧ chunk.at start ≤ off ∧ off < chunk.at (start + n) then
        byte (off - chunk.at start)
      else s.bytes block off }

/-- What a chunk holds. -/
def byteAt (s : Arena) (chunk : Chunk) (i : Nat) : UInt8 := s.bytes chunk.block (chunk.at i)

theorem put_byteAt (s : Arena) (chunk : Chunk) (start n i : Nat) (byte : Nat → UInt8) :
    (s.put chunk start n byte).byteAt chunk i =
      if start ≤ i ∧ i < start + n then byte (i - start) else s.byteAt chunk i := by
  have hrange : (chunk.block = chunk.block ∧ chunk.at start ≤ chunk.at i ∧
      chunk.at i < chunk.at (start + n)) ↔ start ≤ i ∧ i < start + n := by
    unfold Chunk.at
    omega
  have hsub : chunk.at i - chunk.at start = i - start := by
    unfold Chunk.at
    omega
  show (if _ ∧ _ ∧ _ then byte _ else s.bytes chunk.block (chunk.at i)) = _
  rw [if_congr hrange (congrArg byte hsub) rfl]
  rfl

/-- A byte that has not been asked for is not written. -/
theorem move_byteAt (s : Arena) {b : Chunk} {n : Nat} (byte : Nat → UInt8) (hapart : s.mem.Apart a b)
    (hn : n + poolHeaderSize ≤ s.mem.size b) {i : Nat} (hi : i + poolHeaderSize < s.mem.size a) :
    s.move b n byte a.block (a.at i) = s.byteAt a i := by
  refine if_neg ?_
  rintro ⟨hblock, hle, hlt⟩
  have hsplit := hapart hblock
  unfold Chunk.at at hle hlt
  omega

theorem put_byteAt_apart (s : Arena) {b : Chunk} {start n : Nat} (byte : Nat → UInt8)
    (hapart : s.mem.Apart a b) (hn : start + n + poolHeaderSize ≤ s.mem.size b) {i : Nat}
    (hi : i + poolHeaderSize < s.mem.size a) : (s.put b start n byte).byteAt a i = s.byteAt a i := by
  refine if_neg ?_
  rintro ⟨hblock, hle, hlt⟩
  have hsplit := hapart hblock
  unfold Chunk.at at hle hlt
  omega

theorem Valid.put (h : Valid k s) (chunk : Chunk) (start n : Nat) (byte : Nat → UInt8) :
    Valid k (s.put chunk start n byte) := ⟨h.laid, h.large⟩

/-! ## Other chunks -/

/-- A chunk in use is still so, and holds what it held. -/
structure Kept (s t : Arena) (a : Chunk) : Prop where
  inUse : t.InUse a
  requested : t.requested a = s.requested a
  size : t.mem.size a = s.mem.size a
  bytes : ∀ i, i < s.requested a → t.byteAt a i = s.byteAt a i

theorem Kept.trans {u : Arena} (h : Kept s t a) (h' : Kept t u a) : Kept s u a where
  inUse := h'.inUse
  requested := h'.requested.trans h.requested
  size := h'.size.trans h.size
  bytes i hi := (h'.bytes i (h.requested.symm ▸ hi)).trans (h.bytes i hi)

/-- `pool_memory_alloc` is about a new chunk. -/
theorem Valid.poolAlloc_kept (h : Valid k s) (hsmall : size + poolHeaderSize < 2 ^ 32) (ha : s.InUse a) :
    Kept s (s.poolAlloc size).2 a := by
  obtain ⟨-, -, hhanded⟩ := h.poolAlloc hsmall
  obtain ⟨-, hallocated⟩ := h.laid.poolMemoryAlloc hsmall
  have hne : a ≠ (s.poolAlloc size).1 := by
    rintro rfl
    exact hhanded.1 ha
  have hlog : (s.poolAlloc size).2.mem.log = .alloc () (s.poolAlloc size).1 :: s.mem.log :=
    Memory.log_poolMemoryAlloc
  refine ⟨?_, Function.update_of_ne hne _ _, hallocated.sizes a ha, fun i _ => rfl⟩
  rw [InUse, hlog]
  exact Or.inr ha

theorem Valid.put_kept (h : Valid k s) {start n : Nat} (byte : Nat → UInt8) (hc : s.InUse chunk)
    (hn : start + n ≤ s.requested chunk) (ha : s.InUse a) (hne : a ≠ chunk) :
    Kept s (s.put chunk start n byte) a := by
  refine ⟨ha, rfl, rfl, fun i hi => ?_⟩
  have hchunk := h.large chunk hc
  have hlarge := h.large a ha
  exact put_byteAt_apart s byte (h.laid.apart a chunk (Or.inl ha) (Or.inl hc) hne) (by omega) (by omega)

/-- `pool_memory_free` is about the chunk that is freed. -/
theorem poolFree_kept (ha : s.InUse a) (hne : a ≠ chunk) : Kept s (s.poolFree chunk) a :=
  ⟨⟨hne.symm, ha⟩, rfl, rfl, fun _ _ => rfl⟩

/-! ## The chunk that is reallocated -/

/-- What `pool_memory_realloc` returns.  A chunk that is not used again keeps its bytes, in a free list or in
a block that is given back. -/
structure Reallocated (k : Nat) (s : Arena) (chunk : Chunk) (size : Nat) (p : Chunk) (t : Arena) :
    Prop where
  valid : Valid k t
  inUse : t.InUse p
  requested : t.requested p = size
  own : 2 ^ k < t.mem.size p → t.mem.size p = size + poolHeaderSize
  other : ∀ a, s.InUse a → a ≠ chunk → Kept s t a ∧ a ≠ p
  copied : ∀ i, i < s.requested chunk → t.byteAt p i = s.byteAt chunk i
  old : ∀ i, i < s.requested chunk → t.byteAt chunk i = s.byteAt chunk i
  left : p ≠ chunk → t.requested chunk = s.requested chunk ∧ t.mem.size chunk = s.mem.size chunk
  small : p ≠ chunk → ¬ 2 ^ k < s.mem.size chunk → t.mem.Cut chunk
  gone : p ≠ chunk → 2 ^ k < s.mem.size chunk → chunk.block ∉ (t.mem.pool ()).addresses

/-- A chunk for which there is no room. -/
theorem size_lt_of_not_fits (hfits : ¬ s.mem.fits () chunk size = true) :
    s.mem.size chunk < size + poolHeaderSize := by
  unfold Memory.fits at hfits
  simp only [Bool.or_eq_true, decide_eq_true_eq, not_or] at hfits
  exact Nat.lt_of_not_le hfits.1.2

/-- The memory of a large chunk that is freed goes back to the system. -/
theorem Valid.block_not_mem (h : Valid k s) (hreturned : Region.Returned () chunk s.mem.log)
    (hfreed : ¬ s.InUse chunk) (hsize : 2 ^ k < s.mem.size chunk) :
    chunk.block ∉ (s.mem.pool ()).addresses := by
  rcases h.laid.returned chunk hreturned with (hl | ⟨i, hi⟩) | ⟨hgone, -⟩
  · exact absurd hl hfreed
  · obtain ⟨hpow, hle⟩ := h.laid.lists i chunk hi
    have hmono := Nat.pow_le_pow_right (by decide : 0 < 2) hle
    omega
  · exact hgone

/-- A small chunk that is freed is in a free list. -/
theorem Valid.cut_poolFree (h : Valid k s) (hsize : ¬ 2 ^ k < s.mem.size chunk) :
    (s.poolFree chunk).mem.Cut chunk := by
  refine Or.inr ⟨getFreeIndex (s.mem.size chunk), ?_⟩
  rw [← h.laid.blocksize] at hsize
  unfold Arena.poolFree Memory.poolMemoryFree
  simp [hsize, Memory.setPool, Memory.note]

theorem Valid.poolRealloc_fits (h : Valid k s) (halign : align ≤ k) (hk : k ≤ 32) (hl : s.InUse chunk)
    (hsmall : size + poolHeaderSize < 2 ^ 32)
    (hown : 2 ^ k < s.mem.size chunk → s.mem.size chunk = s.requested chunk + poolHeaderSize)
    (hgrow : s.requested chunk ≤ size) (hfits : s.mem.fits () chunk size = true) :
    Reallocated k s chunk size chunk (s.poolRealloc chunk size).2 := by
  have hvalid := (h.poolRealloc halign hk hl hsmall).1
  have hroom := h.laid.of_fits halign hk hl hsmall hfits
  rw [Arena.poolRealloc_fits hfits] at hvalid ⊢
  refine ⟨hvalid, hl, Function.update_self _ _ _, fun hlarge => ?_,
    fun a ha hne => ⟨⟨ha, ?_, rfl, fun _ _ => rfl⟩, hne⟩,
    fun _ _ => rfl, fun _ _ => rfl, fun hne => absurd rfl hne, fun hne => absurd rfl hne,
    fun hne => absurd rfl hne⟩
  · have hown := hown hlarge
    show s.mem.size chunk = size + poolHeaderSize
    omega
  · exact Function.update_of_ne hne _ _

theorem Valid.poolRealloc_moves (h : Valid k s) (halign : align ≤ k) (hk : k ≤ 32) (hl : s.InUse chunk)
    (hsmall : size + poolHeaderSize < 2 ^ 32) (hfits : ¬ s.mem.fits () chunk size = true) :
    Reallocated k s chunk size (s.poolRealloc chunk size).1 (s.poolRealloc chunk size).2 ∧
      (s.poolRealloc chunk size).1 ≠ chunk := by
  have hnote : Valid k { s with mem := s.mem.note (.resize () chunk) } :=
    ⟨h.laid.note_resize chunk, h.large⟩
  obtain ⟨hvalid, hin, hhanded⟩ := hnote.poolAlloc hsmall
  obtain ⟨-, hallocated⟩ := hnote.laid.poolMemoryAlloc hsmall
  have hlarge : size + poolHeaderSize ≤
      (Arena.poolAlloc { s with mem := s.mem.note (.resize () chunk) } size).2.mem.size
        (Arena.poolAlloc { s with mem := s.mem.note (.resize () chunk) } size).1 := hallocated.large
  have hown : 2 ^ k < (Arena.poolAlloc { s with mem := s.mem.note (.resize () chunk) } size).2.mem.size
        (Arena.poolAlloc { s with mem := s.mem.note (.resize () chunk) } size).1 →
      (Arena.poolAlloc { s with mem := s.mem.note (.resize () chunk) } size).2.mem.size
        (Arena.poolAlloc { s with mem := s.mem.note (.resize () chunk) } size).1 = size + poolHeaderSize :=
    hnote.laid.size_poolMemoryAlloc halign hsmall
  have hkept : ∀ a, s.InUse a →
      Kept s (Arena.poolAlloc { s with mem := s.mem.note (.resize () chunk) } size).2 a := by
    intro a ha
    obtain ⟨hin, hrequested, hsize, hbytes⟩ := hnote.poolAlloc_kept hsmall (show Arena.InUse _ a from ha)
    exact ⟨hin, hrequested, hsize, hbytes⟩
  have hrequested : (Arena.poolAlloc { s with mem := s.mem.note (.resize () chunk) } size).2.requested
      (Arena.poolAlloc { s with mem := s.mem.note (.resize () chunk) } size).1 = size :=
    Function.update_self _ _ _
  have hdead : ¬ s.InUse (Arena.poolAlloc { s with mem := s.mem.note (.resize () chunk) } size).1 :=
    hhanded.1
  generalize hnew : Arena.poolAlloc { s with mem := s.mem.note (.resize () chunk) } size = new at *
  obtain ⟨p, t⟩ := new
  simp only at hvalid hin hlarge hown hrequested hdead
  have hp : ∀ a, s.InUse a → a ≠ p := by
    rintro a ha rfl
    exact hdead ha
  have hroom := size_lt_of_not_fits hfits
  have hheader := h.large chunk hl
  have hmoved : ∀ a, s.InUse a → ∀ i, i < s.requested a →
      s.move p (s.mem.size chunk - poolHeaderSize) (fun i => s.byteAt chunk i) a.block (a.at i) =
        s.byteAt a i := by
    intro a ha i hi
    have hat := h.large a ha
    have hsize : t.mem.size a = s.mem.size a := (hkept a ha).size
    refine move_byteAt { s with mem := t.mem } (fun i => s.byteAt chunk i)
      (hvalid.laid.apart a p (Or.inl (hkept a ha).inUse) (Or.inl hin) (hp a ha)) ?_ ?_
    · show s.mem.size chunk - poolHeaderSize + poolHeaderSize ≤ t.mem.size p
      omega
    · show i + poolHeaderSize < t.mem.size a
      omega
  rw [Arena.poolRealloc_moves hfits hnew]
  obtain ⟨hfreed, hgone⟩ := hvalid.poolFree hk (hkept chunk hl).inUse
  refine ⟨⟨⟨hfreed.laid, hfreed.large⟩, ⟨hp chunk hl, hin⟩, hrequested, hown,
    fun a ha hne => ⟨⟨?_, ?_, ?_, ?_⟩, hp a ha⟩,
    fun i hi => ?_, hmoved chunk hl, fun _ => ⟨(hkept chunk hl).requested, (hkept chunk hl).size⟩,
    fun _ hsize => ?_, fun _ hsize => ?_⟩, (hp chunk hl).symm⟩
  · exact ⟨hne.symm, (hkept a ha).inUse⟩
  · exact (hkept a ha).requested
  · exact (hkept a ha).size
  · exact hmoved a ha
  · exact move_at s p (by omega) fun i => s.byteAt chunk i
  · refine hvalid.cut_poolFree ?_
    rw [(hkept chunk hl).size]
    exact hsize
  · refine hfreed.block_not_mem (hkept chunk hl).inUse.returned hgone ?_
    show 2 ^ k < t.mem.size chunk
    rw [(hkept chunk hl).size]
    exact hsize

/-- `pool_memory_realloc` of a chunk to a size that is not smaller. -/
theorem Valid.poolRealloc_grows (h : Valid k s) (halign : align ≤ k) (hk : k ≤ 32) (hl : s.InUse chunk)
    (hsmall : size + poolHeaderSize < 2 ^ 32)
    (hown : 2 ^ k < s.mem.size chunk → s.mem.size chunk = s.requested chunk + poolHeaderSize)
    (hgrow : s.requested chunk ≤ size) :
    Reallocated k s chunk size (s.poolRealloc chunk size).1 (s.poolRealloc chunk size).2 := by
  by_cases hfits : s.mem.fits () chunk size = true
  · have hfirst : (s.poolRealloc chunk size).1 = chunk := by
      rw [Arena.poolRealloc_fits hfits]
    rw [hfirst]
    exact h.poolRealloc_fits halign hk hl hsmall hown hgrow hfits
  · exact (h.poolRealloc_moves halign hk hl hsmall hfits).1

end Arena

end PgPool
