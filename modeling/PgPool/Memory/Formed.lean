import PgPool.Memory.Pool

/-!
# The pools keep to their blocks

`Formed` is what the functions of `pool_memory.c` preserve as long as only live chunks are freed:
blocks belong to one pool each, live chunks and chunks in free lists lie in blocks of their pool,
and no chunk is both.
-/

namespace PgPool

open Region

/-- The chunk lies in a block of the pool. -/
def Pool.Holds (p : Pool) (a : Chunk) : Prop :=
  (∃ b ∈ p.blocks, b.address = a.block ∧ a.offset < b.freepoint) ∨ ∃ b ∈ p.largeblocks, b.chunk = a

/-- The addresses of the blocks. -/
def Pool.addresses (p : Pool) : List Nat :=
  p.blocks.map Block.address ++ p.largeblocks.map Block.address

/-- No block and no free chunk is listed twice. -/
structure Pool.Distinct (p : Pool) : Prop where
  addresses : p.addresses.Nodup
  lists : ∀ i, (p.freelist i).Nodup
  apart : ∀ i j a, a ∈ p.freelist i → a ∈ p.freelist j → i = j

variable {p : Pool} {a : Chunk}

theorem Pool.Holds.block_mem (h : p.Holds a) : a.block ∈ p.addresses := by
  rcases h with ⟨b, hb, hadd, -⟩ | ⟨b, hb, rfl⟩
  · exact List.mem_append_left _ (List.mem_map.2 ⟨b, hb, hadd⟩)
  · exact List.mem_append_right _ (List.mem_map.2 ⟨b, hb, rfl⟩)

theorem Pool.distinct_empty (blocksize : Nat) : (Pool.empty blocksize).Distinct where
  addresses := List.nodup_nil
  lists _ := List.nodup_nil
  apart i j a ha := by cases ha

theorem Pool.addresses_reused (p : Pool) :
    (Pool.addresses ⟨p.blocksize, (p.blocks.take 1).map fun b =>
      { b with allocsize := 0, freepoint := 0 }, [], fun _ => []⟩).Sublist p.addresses := by
  unfold Pool.addresses
  cases p.blocks with
  | nil => exact List.nil_sublist _
  | cons block rest =>
    exact List.Sublist.cons_cons _ (List.nil_sublist _)

namespace Memory

section

variable {ρ : Type}

/-- The state of the pools between two calls. -/
structure Formed (m : Memory ρ) : Prop where
  distinct : ∀ r, (m.pool r).Distinct
  separate : ∀ r s x, x ∈ (m.pool r).addresses → x ∈ (m.pool s).addresses → r = s
  old : ∀ r x, x ∈ (m.pool r).addresses → x < m.nextBlock
  live : ∀ r a, Live r a m.log → (m.pool r).Holds a
  free : ∀ r i a, a ∈ (m.pool r).freelist i → (m.pool r).Holds a ∧ ∀ s, ¬ Live s a m.log

variable {m : Memory ρ} {r s : ρ}

@[simp] theorem pool_note (e : Event ρ Chunk) : (m.note e).pool = m.pool := rfl
@[simp] theorem log_note (e : Event ρ Chunk) : (m.note e).log = e :: m.log := rfl
@[simp] theorem nextBlock_note (e : Event ρ Chunk) : (m.note e).nextBlock = m.nextBlock := rfl

/-- A chunk is live in one pool only. -/
theorem Formed.live_unique (h : Formed m) (hr : Live r a m.log) (hs : Live s a m.log) : r = s :=
  h.separate r s a.block (h.live r a hr).block_mem (h.live s a hs).block_mem

/-- No pool has a chunk in a block that `malloc` has yet to return. -/
theorem Formed.not_holds_next (h : Formed m) {offset : Nat} (s : ρ) :
    ¬ (m.pool s).Holds ⟨m.nextBlock, offset⟩ := by
  intro hs
  exact absurd (h.old s _ hs.block_mem) (Nat.lt_irrefl _)

theorem Formed.next_not_mem (h : Formed m) (s : ρ) : m.nextBlock ∉ (m.pool s).addresses := by
  intro hs
  exact absurd (h.old s _ hs) (Nat.lt_irrefl _)

/-- No pool has a chunk at the free point of a block. -/
theorem Formed.not_holds_freepoint (h : Formed m) {block : Block} {rest : List Block}
    (hblocks : (m.pool r).blocks = block :: rest) (s : ρ) :
    ¬ (m.pool s).Holds ⟨block.address, block.freepoint⟩ := by
  intro hs
  have hmem : block.address ∈ (m.pool r).addresses := by
    unfold Pool.addresses
    rw [hblocks]
    exact List.mem_append_left _ List.mem_cons_self
  have hsr := h.separate s r _ hs.block_mem hmem
  subst hsr
  have hnd := (h.distinct s).addresses
  unfold Pool.addresses at hnd
  rw [hblocks, List.map_cons, List.cons_append, List.nodup_cons] at hnd
  rcases hs with ⟨b, hb, hadd, hlt⟩ | ⟨b, hb, hchunk⟩
  · rw [hblocks] at hb
    rcases List.mem_cons.1 hb with rfl | hb
    · exact Nat.lt_irrefl _ hlt
    · exact hnd.1 (List.mem_append_left _ (List.mem_map.2 ⟨b, hb, hadd⟩))
  · exact hnd.1 (List.mem_append_right _
      (List.mem_map.2 ⟨b, hb, congrArg Chunk.block hchunk⟩))

/-- A block with room is new, or the first one of the pool. -/
theorem roomyBlock_cases (n : Nat) :
    m.roomyBlock r n =
        (⟨m.nextBlock, (m.pool r).blocksize, 0, 0⟩, (m.pool r).blocks, m.nextBlock + 1) ∨
      ∃ block rest, (m.pool r).blocks = block :: rest ∧
        m.roomyBlock r n = (block, rest, m.nextBlock) := by
  unfold roomyBlock
  simp only
  split
  · rename_i hb
    exact Or.inl (by rw [hb])
  · rename_i block rest hb
    split
    · exact Or.inl (by rw [hb])
    · exact Or.inr ⟨block, rest, hb, rfl⟩

theorem Formed.note_resize {chunk : Chunk} (h : Formed m) : Formed (m.note (.resize r chunk)) :=
  ⟨h.distinct, h.separate, h.old, h.live, h.free⟩

/-- What is live after an allocation. -/
theorem live_allocated {a chunk : Chunk} {log : History ρ Chunk} (h : Live s a (.alloc r chunk :: log)) :
    s = r ∧ a = chunk ∨ Live s a log := by
  rcases h with ⟨hr, ha, -⟩ | h
  · exact Or.inl ⟨hr.symm, ha.symm⟩
  · exact Or.inr h

end

variable {ρ : Type} [DecidableEq ρ] {m m' : Memory ρ} {r s : ρ} {q : Pool} {chunk : Chunk} {size : Nat}

@[simp] theorem pool_setPool_self (p : Pool) : (m.setPool r p).pool r = p := if_pos rfl

theorem pool_setPool_ne (p : Pool) (h : s ≠ r) : (m.setPool r p).pool s = m.pool s := if_neg h

/-- One pool changes.  The blocks it gets are new, and what becomes live lies in it. -/
theorem Formed.update (h : Formed m) (pool : m'.pool r = q)
    (others : ∀ s, s ≠ r → m'.pool s = m.pool s) (next : m.nextBlock ≤ m'.nextBlock)
    (distinct : q.Distinct)
    (addresses : ∀ x ∈ q.addresses,
      x ∈ (m.pool r).addresses ∨ m.nextBlock ≤ x ∧ x < m'.nextBlock)
    (live : ∀ s a, Live s a m'.log → s = r ∧ q.Holds a ∨ s ≠ r ∧ Live s a m.log)
    (free : ∀ i a, a ∈ q.freelist i → q.Holds a ∧ ¬ Live r a m'.log) : Formed m' := by
  have hcases : ∀ s, (s = r ∧ m'.pool s = q) ∨ (s ≠ r ∧ m'.pool s = m.pool s) := by
    intro s
    by_cases hs : s = r
    · exact Or.inl ⟨hs, hs ▸ pool⟩
    · exact Or.inr ⟨hs, others s hs⟩
  have hsep : ∀ s x, s ≠ r → x ∈ q.addresses → x ∉ (m.pool s).addresses := by
    intro s x hs hx hxs
    rcases addresses x hx with hold | ⟨hge, -⟩
    · exact hs (h.separate s r x hxs hold)
    · exact absurd (h.old s x hxs) (Nat.not_lt.2 hge)
  refine ⟨fun s => ?_, fun s t x hx hy => ?_, fun s x hx => ?_, fun s a ha => ?_, fun s i a ha => ?_⟩
  · rcases hcases s with ⟨-, hp⟩ | ⟨-, hp⟩
    · rw [hp]
      exact distinct
    · rw [hp]
      exact h.distinct s
  · rcases hcases s with ⟨hs, hp⟩ | ⟨hs, hp⟩ <;> rcases hcases t with ⟨ht, hq⟩ | ⟨ht, hq⟩ <;>
      rw [hp] at hx <;> rw [hq] at hy
    · exact hs.trans ht.symm
    · exact absurd hy (hsep t x ht hx)
    · exact absurd hx (hsep s x hs hy)
    · exact h.separate s t x hx hy
  · rcases hcases s with ⟨-, hp⟩ | ⟨-, hp⟩ <;> rw [hp] at hx
    · rcases addresses x hx with hold | ⟨-, hlt⟩
      · exact Nat.lt_of_lt_of_le (h.old r x hold) next
      · exact hlt
    · exact Nat.lt_of_lt_of_le (h.old s x hx) next
  · rcases live s a ha with ⟨rfl, hq⟩ | ⟨hs, hl⟩
    · rw [pool]
      exact hq
    · rw [others s hs]
      exact h.live s a hl
  · rcases hcases s with ⟨-, hp⟩ | ⟨hs, hp⟩ <;> rw [hp] at ha ⊢
    · refine ⟨(free i a ha).1, fun t ht => ?_⟩
      rcases live t a ht with ⟨rfl, -⟩ | ⟨htr, hl⟩
      · exact (free i a ha).2 ht
      · exact hsep t a.block htr (free i a ha).1.block_mem (h.live t a hl).block_mem
    · refine ⟨(h.free s i a ha).1, fun t ht => ?_⟩
      rcases live t a ht with ⟨-, hq⟩ | ⟨-, hl⟩
      · exact hsep s a.block hs hq.block_mem (h.free s i a ha).1.block_mem
      · exact (h.free s i a ha).2 t hl

/-! ## Allocation -/

/-- A chunk is allocated where no pool has one. -/
theorem Formed.allocNew (h : Formed m) (pool : m'.pool r = q)
    (others : ∀ s, s ≠ r → m'.pool s = m.pool s) (next : m.nextBlock ≤ m'.nextBlock)
    (log : m'.log = .alloc r chunk :: m.log) (fresh : ∀ s, ¬ (m.pool s).Holds chunk)
    (new : q.Holds chunk) (holds : ∀ a, (m.pool r).Holds a → q.Holds a)
    (freelist : q.freelist = (m.pool r).freelist) (nodup : q.addresses.Nodup)
    (addresses : ∀ x ∈ q.addresses,
      x ∈ (m.pool r).addresses ∨ m.nextBlock ≤ x ∧ x < m'.nextBlock) :
    Formed m' ∧ ∀ s, ¬ Live s chunk m.log := by
  refine ⟨h.update pool others next ⟨nodup, ?_, ?_⟩ addresses ?_ ?_,
    fun s hs => fresh s (h.live s chunk hs)⟩
  · rw [freelist]
    exact (h.distinct r).lists
  · rw [freelist]
    exact (h.distinct r).apart
  · intro s a ha
    rw [log] at ha
    rcases live_allocated ha with ⟨rfl, rfl⟩ | hl
    · exact Or.inl ⟨rfl, new⟩
    · by_cases hs : s = r
      · subst hs
        exact Or.inl ⟨rfl, holds a (h.live s a hl)⟩
      · exact Or.inr ⟨hs, hl⟩
  · intro i a ha
    rw [freelist] at ha
    obtain ⟨hold, hdead⟩ := h.free r i a ha
    refine ⟨holds a hold, fun hl => ?_⟩
    rw [log] at hl
    rcases live_allocated hl with ⟨-, rfl⟩ | hl
    · exact fresh r hold
    · exact hdead r hl

theorem Formed.allocLarge (h : Formed m) (r : ρ) (size : Nat) :
    Formed ((m.allocLarge r size).2.note (.alloc r (m.allocLarge r size).1)) ∧
      ∀ s, ¬ Live s (m.allocLarge r size).1 m.log := by
  refine h.allocNew (q := { m.pool r with
      largeblocks := ⟨m.nextBlock, size + poolHeaderSize, size + poolHeaderSize,
        size + poolHeaderSize⟩ :: (m.pool r).largeblocks })
    (pool_setPool_self _) (fun s hs => pool_setPool_ne _ hs) (Nat.le_succ _) rfl
    h.not_holds_next (Or.inr ⟨_, List.mem_cons_self, rfl⟩) ?_ rfl ?_ ?_
  · intro a ha
    rcases ha with hb | ⟨b, hb, rfl⟩
    · exact Or.inl hb
    · exact Or.inr ⟨b, List.mem_cons_of_mem _ hb, rfl⟩
  · unfold Pool.addresses
    rw [List.map_cons, List.nodup_middle, List.nodup_cons]
    exact ⟨h.next_not_mem r, (h.distinct r).addresses⟩
  · intro x hx
    unfold Pool.addresses at hx
    rw [List.map_cons, List.mem_append, List.mem_cons] at hx
    rcases hx with hx | rfl | hx
    · exact Or.inl (List.mem_append_left _ hx)
    · exact Or.inr ⟨Nat.le_refl _, Nat.lt_succ_self _⟩
    · exact Or.inl (List.mem_append_right _ hx)

theorem Formed.allocFresh (h : Formed m) (r : ρ) {n : Nat} (hn : 0 < n) :
    Formed ((m.allocFresh r n).2.note (.alloc r (m.allocFresh r n).1)) ∧
      ∀ s, ¬ Live s (m.allocFresh r n).1 m.log := by
  rcases roomyBlock_cases (m := m) (r := r) n with hroom | ⟨block, rest, hblocks, hroom⟩
  · unfold Memory.allocFresh
    rw [hroom]
    refine h.allocNew (q := { m.pool r with
        blocks := ⟨m.nextBlock, (m.pool r).blocksize, 0 + n, 0 + n⟩ :: (m.pool r).blocks })
      (pool_setPool_self _) (fun s hs => pool_setPool_ne _ hs) (Nat.le_succ _) rfl
      h.not_holds_next ?_ ?_ rfl ?_ ?_
    · exact Or.inl ⟨_, List.mem_cons_self, rfl, by simpa using hn⟩
    · intro a ha
      rcases ha with ⟨b, hb, hin⟩ | hb
      · exact Or.inl ⟨b, List.mem_cons_of_mem _ hb, hin⟩
      · exact Or.inr hb
    · exact List.nodup_cons.2 ⟨h.next_not_mem r, (h.distinct r).addresses⟩
    · intro x hx
      rcases List.mem_cons.1 hx with rfl | hx
      · exact Or.inr ⟨Nat.le_refl _, Nat.lt_succ_self _⟩
      · exact Or.inl hx
  · have haddr : (Pool.addresses { m.pool r with
        blocks := ⟨block.address, block.size, block.allocsize + n, block.freepoint + n⟩ :: rest }) =
        (m.pool r).addresses := by
      unfold Pool.addresses
      rw [hblocks]
      rfl
    unfold Memory.allocFresh
    rw [hroom]
    refine h.allocNew (q := { m.pool r with
        blocks := ⟨block.address, block.size, block.allocsize + n, block.freepoint + n⟩ :: rest })
      (pool_setPool_self _) (fun s hs => pool_setPool_ne _ hs) (Nat.le_refl _) rfl
      (h.not_holds_freepoint hblocks) ?_ ?_ rfl ?_ ?_
    · exact Or.inl ⟨_, List.mem_cons_self, rfl, by simpa using hn⟩
    · intro a ha
      rcases ha with ⟨b, hb, hadd, hlt⟩ | hb
      · rw [hblocks] at hb
        rcases List.mem_cons.1 hb with rfl | hb
        · exact Or.inl ⟨_, List.mem_cons_self, hadd, Nat.lt_of_lt_of_le hlt (Nat.le_add_right _ _)⟩
        · exact Or.inl ⟨b, List.mem_cons_of_mem _ hb, hadd, hlt⟩
      · exact Or.inr hb
    · rw [haddr]
      exact (h.distinct r).addresses
    · intro x hx
      rw [haddr] at hx
      exact Or.inl hx

/-- A chunk from a free list. -/
theorem Formed.allocFree (h : Formed m) {i : Nat} {rest : List Chunk} (n : Nat)
    (hlist : (m.pool r).freelist i = chunk :: rest) :
    Formed (((m.setPool r { m.pool r with
        freelist := fun j => if j = i then rest else (m.pool r).freelist j }).setSize chunk n).note
          (.alloc r chunk)) ∧
      ∀ s, ¬ Live s chunk m.log := by
  have hmem : ∀ j a, a ∈ (if j = i then rest else (m.pool r).freelist j) →
      a ∈ (m.pool r).freelist j ∧ a ≠ chunk := by
    intro j a ha
    have hnd := (h.distinct r).lists i
    rw [hlist, List.nodup_cons] at hnd
    split at ha
    · rename_i hj
      rw [hj, hlist]
      refine ⟨List.mem_cons_of_mem _ ha, ?_⟩
      rintro rfl
      exact hnd.1 ha
    · rename_i hj
      refine ⟨ha, ?_⟩
      rintro rfl
      exact hj ((h.distinct r).apart j i a ha (hlist ▸ List.mem_cons_self))
  have hhead : chunk ∈ (m.pool r).freelist i := hlist ▸ List.mem_cons_self
  refine ⟨h.update (pool_setPool_self _) (fun s hs => pool_setPool_ne _ hs) (Nat.le_refl _)
    ⟨(h.distinct r).addresses, fun j => ?_, fun j k a hj hk => ?_⟩ (fun x hx => Or.inl hx) ?_ ?_,
    (h.free r i chunk hhead).2⟩
  · show (if j = i then rest else (m.pool r).freelist j).Nodup
    split
    · have hnd := (h.distinct r).lists i
      rw [hlist, List.nodup_cons] at hnd
      exact hnd.2
    · exact (h.distinct r).lists j
  · exact (h.distinct r).apart j k a (hmem j a hj).1 (hmem k a hk).1
  · intro s a ha
    rcases live_allocated ha with ⟨rfl, rfl⟩ | hl
    · exact Or.inl ⟨rfl, (h.free s i a hhead).1⟩
    · by_cases hs : s = r
      · subst hs
        exact Or.inl ⟨rfl, h.live s a hl⟩
      · exact Or.inr ⟨hs, hl⟩
  · intro j a ha
    obtain ⟨hold, hne⟩ := hmem j a ha
    refine ⟨(h.free r j a hold).1, fun hl => ?_⟩
    rcases live_allocated hl with ⟨-, he⟩ | hl
    · exact hne he
    · exact (h.free r j a hold).2 r hl

theorem log_poolMemoryAlloc : (m.poolMemoryAlloc r size).2.log =
    .alloc r (m.poolMemoryAlloc r size).1 :: m.log := by
  have hlarge : (m.allocLarge r size).2.log = m.log := rfl
  have hsmall : (m.allocSmall r size).2.log = m.log := by
    unfold allocSmall
    simp only
    split <;> rfl
  unfold poolMemoryAlloc
  by_cases h : (m.pool r).blocksize < size + poolHeaderSize
  · simp only [h, if_true, log_note, hlarge]
  · simp only [h, if_false, log_note, hsmall]

/-- `pool_memory_alloc` returns a chunk that is not in use. -/
theorem Formed.poolMemoryAlloc (h : Formed m) (r : ρ) (size : Nat) :
    Formed (m.poolMemoryAlloc r size).2 ∧ ∀ s, ¬ Live s (m.poolMemoryAlloc r size).1 m.log := by
  unfold Memory.poolMemoryAlloc
  by_cases hsize : (m.pool r).blocksize < size + poolHeaderSize
  · simp only [hsize, if_true]
    exact h.allocLarge r size
  · simp only [hsize, if_false]
    unfold allocSmall
    simp only
    split
    · rename_i hlist
      exact h.allocFree _ hlist
    · exact h.allocFresh r (Nat.two_pow_pos _)

/-! ## Release -/

theorem log_poolMemoryFree : (m.poolMemoryFree r chunk).log = .free r chunk :: m.log := rfl

/-- `pool_memory_free` of a live chunk. -/
theorem Formed.poolMemoryFree (h : Formed m) (hl : Live r chunk m.log) :
    Formed (m.poolMemoryFree r chunk) := by
  have hlive : ∀ {q : Pool}, (∀ a, a ≠ chunk → (m.pool r).Holds a → q.Holds a) →
      ∀ s a, Live s a (.free r chunk :: m.log) → s = r ∧ q.Holds a ∨ s ≠ r ∧ Live s a m.log := by
    intro q hq s a ha
    by_cases hs : s = r
    · subst hs
      exact Or.inl ⟨rfl, hq a ha.1.symm (h.live s a ha.2)⟩
    · exact Or.inr ⟨hs, ha.2⟩
  unfold Memory.poolMemoryFree
  by_cases hsize : (m.pool r).blocksize < m.size chunk
  · have hsub : (Pool.addresses { m.pool r with
        largeblocks := (m.pool r).largeblocks.eraseP fun b => b.chunk == chunk }).Sublist
        (m.pool r).addresses :=
      (List.Sublist.refl _).append (List.eraseP_sublist.map Block.address)
    have hholds : ∀ a, a ≠ chunk → (m.pool r).Holds a → Pool.Holds { m.pool r with
        largeblocks := (m.pool r).largeblocks.eraseP fun b => b.chunk == chunk } a := by
      intro a hne ha
      rcases ha with hb | ⟨b, hb, rfl⟩
      · exact Or.inl hb
      · exact Or.inr ⟨b, (List.mem_eraseP_of_neg (by simpa using hne)).2 hb, rfl⟩
    simp only [hsize, if_true]
    refine h.update (pool_setPool_self _) (fun s hs => pool_setPool_ne _ hs) (Nat.le_refl _)
      ⟨hsub.nodup (h.distinct r).addresses, (h.distinct r).lists, (h.distinct r).apart⟩
      (fun x hx => Or.inl (hsub.subset hx)) (hlive hholds) ?_
    intro i a ha
    obtain ⟨hold, hdead⟩ := h.free r i a ha
    refine ⟨hholds a ?_ hold, fun hla => hdead r hla.2⟩
    rintro rfl
    exact hdead r hl
  · have hnot : ∀ i, chunk ∉ (m.pool r).freelist i := fun i hi => (h.free r i chunk hi).2 r hl
    simp only [hsize, if_false]
    refine h.update (pool_setPool_self _) (fun s hs => pool_setPool_ne _ hs) (Nat.le_refl _)
      ⟨(h.distinct r).addresses, fun i => ?_, fun i j a hi hj => ?_⟩ (fun x hx => Or.inl hx)
      (hlive fun a _ ha => ha) ?_
    · show (if i = getFreeIndex (m.size chunk) then chunk :: (m.pool r).freelist i
        else (m.pool r).freelist i).Nodup
      split
      · exact List.nodup_cons.2 ⟨hnot i, (h.distinct r).lists i⟩
      · exact (h.distinct r).lists i
    · replace hi : a ∈ (if i = getFreeIndex (m.size chunk) then chunk :: (m.pool r).freelist i
        else (m.pool r).freelist i) := hi
      replace hj : a ∈ (if j = getFreeIndex (m.size chunk) then chunk :: (m.pool r).freelist j
        else (m.pool r).freelist j) := hj
      by_cases hac : a = chunk
      · subst hac
        split at hi <;> split at hj
        · rename_i hi' hj'
          exact hi'.trans hj'.symm
        · exact absurd hj (hnot j)
        · exact absurd hi (hnot i)
        · exact absurd hi (hnot i)
      · refine (h.distinct r).apart i j a ?_ ?_
        · split at hi
          · exact (List.mem_cons.1 hi).resolve_left hac
          · exact hi
        · split at hj
          · exact (List.mem_cons.1 hj).resolve_left hac
          · exact hj
    · intro i a ha
      replace ha : a ∈ (if i = getFreeIndex (m.size chunk) then chunk :: (m.pool r).freelist i
        else (m.pool r).freelist i) := ha
      by_cases hac : a = chunk
      · subst hac
        exact ⟨h.live r a hl, fun hla => hla.1 rfl⟩
      · have hold : a ∈ (m.pool r).freelist i := by
          split at ha
          · exact (List.mem_cons.1 ha).resolve_left hac
          · exact ha
        exact ⟨(h.free r i a hold).1, fun hla => (h.free r i a hold).2 r hla.2⟩

/-- What a call of `pool_memory_realloc` returns and leaves in the history. -/
inductive Resized (r : ρ) (chunk : Chunk) (m : Memory ρ) : Chunk → Memory ρ → Prop
  | kept : Resized r chunk m chunk (m.note (.resize r chunk))
  | moved {p : Chunk} {m' : Memory ρ} (fresh : ∀ s, ¬ Live s p m.log)
      (log : m'.log = .free r chunk :: .alloc r p :: .resize r chunk :: m.log) :
      Resized r chunk m p m'

/-- `pool_memory_realloc` of a live chunk. -/
theorem Formed.poolMemoryRealloc (h : Formed m) (hl : Live r chunk m.log) (size : Nat) :
    Formed (m.poolMemoryRealloc r chunk size).2 ∧
      Resized r chunk m (m.poolMemoryRealloc r chunk size).1 (m.poolMemoryRealloc r chunk size).2 := by
  have hnote : Formed (m.note (.resize r chunk)) := h.note_resize
  obtain ⟨halloc, hfresh⟩ := hnote.poolMemoryAlloc r size
  have hlog : ((m.note (.resize r chunk)).poolMemoryAlloc r size).2.log =
      .alloc r ((m.note (.resize r chunk)).poolMemoryAlloc r size).1 :: .resize r chunk :: m.log :=
    log_poolMemoryAlloc
  unfold Memory.poolMemoryRealloc
  simp only
  split
  · exact ⟨hnote, .kept⟩
  · refine ⟨halloc.poolMemoryFree ?_, .moved hfresh (log_poolMemoryFree.trans (congrArg _ hlog))⟩
    rw [hlog]
    exact Or.inr hl

/-! ## Creation and deletion -/

/-- `pool_memory_create`. -/
theorem Formed.poolMemoryCreate (h : Formed m) (hnew : ¬ Exists r m.log) (blocksize : Nat) :
    Formed (m.poolMemoryCreate r blocksize) := by
  refine h.update (pool_setPool_self _) (fun s hs => pool_setPool_ne _ hs) (Nat.le_refl _)
    (Pool.distinct_empty blocksize) (nofun) ?_ (nofun)
  intro s a ha
  refine Or.inr ⟨?_, ha⟩
  rintro rfl
  exact hnew (Live.exists ha)

/-- `pool_memory_delete`. -/
theorem Formed.poolMemoryDelete (h : Formed m) (r : ρ) (reuse : Bool) :
    Formed (m.poolMemoryDelete r reuse) := by
  unfold Memory.poolMemoryDelete
  cases reuse with
  | true =>
    have hsub := Pool.addresses_reused (m.pool r)
    refine h.update (pool_setPool_self _) (fun s hs => pool_setPool_ne _ hs) (Nat.le_refl _)
      ⟨hsub.nodup (h.distinct r).addresses, fun _ => List.nodup_nil, nofun⟩
      (fun x hx => Or.inl (hsub.subset hx)) ?_ (nofun)
    intro s a ha
    exact Or.inr ⟨ha.1.symm, ha.2⟩
  | false =>
    refine h.update (pool_setPool_self _) (fun s hs => pool_setPool_ne _ hs) (Nat.le_refl _)
      (Pool.distinct_empty 0) (nofun) ?_ (nofun)
    intro s a ha
    exact Or.inr ⟨ha.1.symm, ha.2⟩

end Memory

end PgPool
