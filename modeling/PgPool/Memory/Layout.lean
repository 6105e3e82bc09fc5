import PgPool.Memory.Formed
import Mathlib.Tactic.Common

/-!
# The layout of a pool

`Laid` is what the functions of `pool_memory.c` preserve in a pool whose blocks have a size 2^k: the
chunks that have been cut, in use or free, do not overlap and lie in front of the free points of the
blocks, each with a size that is a power of two and fits a block, or in a block of their own.
-/

namespace PgPool

open Region

/-! ## Size classes -/

theorem freeIndexLoop_le_iff {fuel n : Nat} (idx k : Nat) (h : n < 2 ^ fuel) :
    idx ≤ freeIndexLoop fuel n idx ∧ (freeIndexLoop fuel n idx ≤ idx + k ↔ n < 2 ^ k) := by
  induction fuel generalizing n idx k with
  | zero =>
    have hzero : n = 0 := by simpa using h
    subst hzero
    exact ⟨Nat.le_refl _, iff_of_true (Nat.le_add_right _ _) (Nat.two_pow_pos k)⟩
  | succ fuel ih =>
    unfold freeIndexLoop
    by_cases hn : n = 0
    · rw [if_pos hn, hn]
      exact ⟨Nat.le_refl _, iff_of_true (Nat.le_add_right _ _) (Nat.two_pow_pos k)⟩
    · rw [if_neg hn]
      have hhalf : n / 2 < 2 ^ fuel := by
        rw [Nat.pow_succ] at h
        omega
      obtain ⟨hge, -⟩ := ih (idx + 1) 0 hhalf
      refine ⟨by omega, ?_⟩
      cases k with
      | zero =>
        refine iff_of_false (by omega) ?_
        rw [Nat.pow_zero]
        omega
      | succ k =>
        have hle := (ih (idx + 1) k hhalf).2
        rw [Nat.pow_succ, show idx + (k + 1) = idx + 1 + k by omega, hle]
        omega

/-- The free list of a size is the first that is large enough. -/
theorem getFreeIndex_le_iff {size : Nat} (k : Nat) (hpos : 0 < size) (h : size ≤ 2 ^ 32) :
    getFreeIndex size ≤ k ↔ size ≤ 2 ^ (k + align) := by
  have hsmall : (size - 1) / 2 ^ align < 2 ^ 32 := by
    unfold align
    omega
  have hloop := (freeIndexLoop_le_iff 0 k hsmall).2
  rw [Nat.zero_add] at hloop
  rw [getFreeIndex, if_pos hpos, hloop, Nat.pow_add]
  unfold align
  omega

theorem le_getFreeIndex {size : Nat} (hpos : 0 < size) (h : size ≤ 2 ^ 32) :
    size ≤ 2 ^ (getFreeIndex size + align) :=
  (getFreeIndex_le_iff _ hpos h).mp (Nat.le_refl _)

/-- There is a free list for what fits into a block. -/
theorem getFreeIndex_add_le {k size : Nat} (hpos : 0 < size) (h : size ≤ 2 ^ 32) (halign : align ≤ k)
    (hsize : size ≤ 2 ^ k) : getFreeIndex size + align ≤ k := by
  have hle := (getFreeIndex_le_iff (k - align) hpos h).mpr (by rw [Nat.sub_add_cancel halign]; exact hsize)
  omega

theorem getFreeIndex_pow {i : Nat} (h : i + align ≤ 32) : getFreeIndex (2 ^ (i + align)) = i := by
  have hle : ∀ k, getFreeIndex (2 ^ (i + align)) ≤ k ↔ i ≤ k := by
    intro k
    rw [getFreeIndex_le_iff k (Nat.two_pow_pos _) (Nat.pow_le_pow_right (by decide) h),
      Nat.pow_le_pow_iff_right (by decide)]
    omega
  exact Nat.le_antisymm ((hle i).mpr (Nat.le_refl i)) ((hle _).mp (Nat.le_refl _))

/-! ## Chunks in blocks -/

namespace Memory

/-- The chunk is in use or in a free list. -/
def Cut (m : Memory Unit) (a : Chunk) : Prop := Live () a m.log ∨ ∃ i, a ∈ (m.pool ()).freelist i

/-- The chunk has a place in a block with others, or a block of its own. -/
inductive Placed (k : Nat) (m : Memory Unit) (a : Chunk) : Prop
  | small (i : Nat) (size : m.size a = 2 ^ (i + align)) (fits : i + align ≤ k)
      (block : ∃ b ∈ (m.pool ()).blocks, b.address = a.block ∧ a.offset + m.size a ≤ b.freepoint)
  | large (size : 2 ^ k < m.size a)
      (block : ∃ b ∈ (m.pool ()).largeblocks, b.chunk = a ∧ b.size = m.size a)

/-- The two chunks have no byte in common, headers included. -/
def Apart (m : Memory Unit) (a b : Chunk) : Prop :=
  a.block = b.block → a.offset + m.size a ≤ b.offset ∨ b.offset + m.size b ≤ a.offset

/-- The state of a pool between two calls. -/
structure Laid (k : Nat) (m : Memory Unit) : Prop where
  formed : Formed m
  created : Exists () m.log
  blocksize : (m.pool ()).blocksize = 2 ^ k
  blocks : ∀ b ∈ (m.pool ()).blocks, b.size = 2 ^ k ∧ b.freepoint ≤ 2 ^ k
  placed : ∀ a, m.Cut a → Placed k m a
  apart : ∀ a b, m.Cut a → m.Cut b → a ≠ b → m.Apart a b
  lists : ∀ i a, a ∈ (m.pool ()).freelist i → m.size a = 2 ^ (i + align) ∧ i + align ≤ k
  returned : ∀ a, Returned () a m.log → m.Cut a ∨ a.block ∉ (m.pool ()).addresses ∧ a.block < m.nextBlock

variable {k : Nat} {m m' : Memory Unit} {a b chunk : Chunk} {size : Nat}

theorem Apart.symm (h : m.Apart a b) : m.Apart b a := fun hblock => (h hblock.symm).symm

/-- `pool_memory_create`. -/
theorem laid_poolMemoryCreate (k : Nat) (m : Memory Unit) (h : m.log = []) :
    Laid k (m.poolMemoryCreate () (2 ^ k)) := by
  have hlive : ∀ s a, ¬ Live s a (m.poolMemoryCreate () (2 ^ k)).log := by
    intro s a ha
    have hlog : Live s a m.log := ha
    rw [h] at hlog
    exact hlog
  have hcut : ∀ a, ¬ (m.poolMemoryCreate () (2 ^ k)).Cut a := by
    rintro a (ha | ⟨i, hi⟩)
    · exact hlive () a ha
    · cases hi
  refine ⟨⟨fun r => Pool.distinct_empty _, ?_, nofun, ?_, nofun⟩, Or.inl rfl, rfl, nofun, ?_, ?_, nofun, ?_⟩
  · intro r s x hx
    cases hx
  · intro r a ha
    exact absurd ha (hlive r a)
  · intro a ha
    exact absurd ha (hcut a)
  · intro a b ha
    exact absurd ha (hcut a)
  · intro a ha
    have hlog : Returned () a m.log := ha
    rw [h] at hlog
    exact absurd hlog id

/-- Nothing changes but the history, by a resizing. -/
theorem Laid.note_resize (h : Laid k m) (chunk : Chunk) : Laid k (m.note (.resize () chunk)) := by
  refine ⟨h.formed.note_resize, h.created, h.blocksize, h.blocks, fun a ha => ?_, h.apart, h.lists,
    h.returned⟩
  cases h.placed a ha with
  | small i hsize hfits hblock => exact .small i hsize hfits hblock
  | large hsize hblock => exact .large hsize hblock

namespace Laid

theorem holds (h : Laid k m) (ha : m.Cut a) : (m.pool ()).Holds a := by
  rcases ha with hl | ⟨i, hi⟩
  · exact h.formed.live () a hl
  · exact (h.formed.free () i a hi).1

/-- A cut chunk of a block ends in front of the free point. -/
theorem le_freepoint (h : Laid k m) {block : Block} (hb : block ∈ (m.pool ()).blocks) (ha : m.Cut a)
    (hblock : a.block = block.address) : a.offset + m.size a ≤ block.freepoint := by
  have hnd := (h.formed.distinct ()).addresses
  unfold Pool.addresses at hnd
  obtain ⟨hinj, -, hdisj⟩ := List.nodup_append.mp hnd
  rcases h.placed a ha with ⟨i, -, -, b, hbm, hadd, hle⟩ | ⟨-, b, hbm, rfl, -⟩
  · have heq : b = block := List.inj_on_of_nodup_map hinj hbm hb (hadd.trans hblock)
    rw [← heq]
    exact hle
  · exact absurd hblock.symm
      (hdisj _ (List.mem_map_of_mem hb) _ (List.mem_map_of_mem hbm))

/-- A chunk that no pool has so far. -/
theorem not_cut_next (h : Laid k m) {offset : Nat} : ¬ m.Cut ⟨m.nextBlock, offset⟩ :=
  fun ha => h.formed.not_holds_next () (h.holds ha)

/-- A chunk that is new has never been returned. -/
theorem not_returned (h : Laid k m) (hcut : ¬ m.Cut chunk)
    (hblock : chunk.block ∈ (m.pool ()).addresses ∨ m.nextBlock ≤ chunk.block) :
      ¬ Returned () chunk m.log := by
  intro hr
  rcases h.returned chunk hr with hc | ⟨hnot, hlt⟩
  · exact hcut hc
  · rcases hblock with hmem | hle
    · exact hnot hmem
    · exact absurd hlt (Nat.not_lt.2 hle)

/-- Another chunk is cut: where the pool has none, and apart from the others. -/
theorem add (h : Laid k m) (formed : Formed m') (log : m'.log = .alloc () chunk :: m.log)
    (blocksize : (m'.pool ()).blocksize = (m.pool ()).blocksize)
    (freelist : (m'.pool ()).freelist = (m.pool ()).freelist)
    (size : ∀ a, a ≠ chunk → m'.size a = m.size a)
    (fresh : ¬ m.Cut chunk) (next : m.nextBlock ≤ m'.nextBlock)
    (addresses : ∀ x ∈ (m'.pool ()).addresses, x ∈ (m.pool ()).addresses ∨ m.nextBlock ≤ x)
    (blocks : ∀ b ∈ (m'.pool ()).blocks, b.size = 2 ^ k ∧ b.freepoint ≤ 2 ^ k)
    (old : ∀ a, a ≠ chunk → Placed k m a → Placed k m' a) (new : Placed k m' chunk)
    (apart : ∀ a, m.Cut a → m'.Apart a chunk) : Laid k m' := by
  have hcut : ∀ a, m'.Cut a → a = chunk ∨ a ≠ chunk ∧ m.Cut a := by
    intro a ha
    by_cases hc : a = chunk
    · exact Or.inl hc
    · refine Or.inr ⟨hc, ?_⟩
      rcases ha with hl | ⟨i, hi⟩
      · rw [log] at hl
        rcases live_allocated hl with ⟨-, he⟩ | hl
        · exact absurd he hc
        · exact Or.inl hl
      · rw [freelist] at hi
        exact Or.inr ⟨i, hi⟩
  refine ⟨formed, ?_, blocksize.trans h.blocksize, blocks, fun a ha => ?_, fun a b ha hb hab => ?_,
    fun i a hi => ?_, fun a ha => ?_⟩
  · rw [log]
    exact h.created
  · rcases hcut a ha with rfl | ⟨hne, ha⟩
    · exact new
    · exact old a hne (h.placed a ha)
  · rcases hcut a ha with rfl | ⟨hane, ha⟩ <;> rcases hcut b hb with rfl | ⟨hbne, hb⟩
    · exact absurd rfl hab
    · exact (apart b hb).symm
    · exact apart a ha
    · have hap := h.apart a b ha hb hab
      rw [Apart, size a hane, size b hbne]
      exact hap
  · rw [freelist] at hi
    rw [size a (by rintro rfl; exact fresh (Or.inr ⟨i, hi⟩))]
    exact h.lists i a hi
  · rw [log] at ha
    rcases ha with ⟨-, rfl, -⟩ | ha
    · exact Or.inl (Or.inl (by rw [log]; exact Or.inl ⟨rfl, rfl, h.created⟩))
    · rcases h.returned a ha with hc | ⟨hnot, hlt⟩
      · refine Or.inl (hc.imp (fun hl => ?_) (fun hf => ?_))
        · rw [log]
          exact Or.inr hl
        · rw [freelist]
          exact hf
      · refine Or.inr ⟨fun hx => ?_, Nat.lt_of_lt_of_le hlt next⟩
        rcases addresses _ hx with hx | hx
        · exact hnot hx
        · exact absurd hlt (Nat.not_lt.2 hx)

/-- A chunk in a block of its own. -/
theorem allocLarge (h : Laid k m) (hsize : 2 ^ k < size + poolHeaderSize)
    (hsmall : size + poolHeaderSize < 2 ^ 32) :
    Laid k ((m.allocLarge () size).2.note (.alloc () (m.allocLarge () size).1)) ∧
      ¬ Returned () (m.allocLarge () size).1 m.log ∧
      (m.allocLarge () size).2.size (m.allocLarge () size).1 = size + poolHeaderSize ∧
      ∀ a, a ≠ (m.allocLarge () size).1 → (m.allocLarge () size).2.size a = m.size a := by
  have hfresh : ¬ m.Cut (m.allocLarge () size).1 := h.not_cut_next
  have hnew : (m.allocLarge () size).2.size (m.allocLarge () size).1 = size + poolHeaderSize :=
    (if_pos rfl).trans (Nat.mod_eq_of_lt hsmall)
  refine ⟨h.add (h.formed.allocLarge () size).1 rfl rfl rfl (fun a ha => if_neg ha) hfresh
    (Nat.le_succ _) ?_ h.blocks ?_ ?_ ?_, h.not_returned hfresh (Or.inr (Nat.le_refl _)), hnew,
    fun a ha => if_neg ha⟩
  · intro x hx
    rcases List.mem_append.mp hx with hx | hx
    · exact Or.inl (List.mem_append_left _ hx)
    · rcases List.mem_cons.mp hx with rfl | hx
      · exact Or.inr (Nat.le_refl _)
      · exact Or.inl (List.mem_append_right _ hx)
  · intro a hne ha
    have hsame : (m.allocLarge () size).2.size a = m.size a := if_neg hne
    cases ha with
    | small i hi hfits hblock =>
      rw [← hsame] at hblock
      exact .small i (hsame.trans hi) hfits hblock
    | large hi hblock =>
      obtain ⟨b, hb, hbc, hbs⟩ := hblock
      exact .large (Nat.lt_of_lt_of_eq hi hsame.symm)
        ⟨b, List.mem_cons_of_mem _ hb, hbc, hbs.trans hsame.symm⟩
  · exact .large (Nat.lt_of_lt_of_eq hsize hnew.symm) ⟨_, List.mem_cons_self, rfl, hnew.symm⟩
  · intro a ha hblock
    have hmem := (h.holds ha).block_mem
    rw [hblock] at hmem
    exact absurd hmem (h.formed.next_not_mem ())

end Laid

/-- What `roomyBlock` finds. -/
structure Roomy (k n : Nat) (m : Memory Unit) (block : Block) (rest : List Block) (next : Nat) : Prop where
  size : block.size = 2 ^ k
  room : block.freepoint + n ≤ 2 ^ k
  next : m.nextBlock ≤ next
  address : block.address ∈ (m.pool ()).addresses ∨ m.nextBlock ≤ block.address
  fresh : ¬ m.Cut ⟨block.address, block.freepoint⟩
  front : ∀ a, m.Cut a → a.block = block.address → a.offset + m.size a ≤ block.freepoint
  subset : ∀ b ∈ rest, b ∈ (m.pool ()).blocks
  cover : ∀ b ∈ (m.pool ()).blocks, b = block ∨ b ∈ rest

theorem Laid.roomyBlock (h : Laid k m) {n : Nat} (hn : n ≤ 2 ^ k) :
    Roomy k n m (m.roomyBlock () n).1 (m.roomyBlock () n).2.1 (m.roomyBlock () n).2.2 := by
  have hnew : Roomy k n m ⟨m.nextBlock, (m.pool ()).blocksize, 0, 0⟩ (m.pool ()).blocks
      (m.nextBlock + 1) := by
    refine ⟨h.blocksize, by simpa using hn, Nat.le_succ _, Or.inr (Nat.le_refl _), h.not_cut_next, ?_,
      fun b hb => hb, fun b hb => Or.inr hb⟩
    intro a ha hblock
    have hmem := (h.holds ha).block_mem
    rw [hblock] at hmem
    exact absurd hmem (h.formed.next_not_mem ())
  unfold Memory.roomyBlock
  simp only
  split
  · rename_i hnil
    rw [hnil] at hnew
    exact hnew
  · rename_i block rest hcons
    have hmem : block ∈ (m.pool ()).blocks := hcons ▸ List.mem_cons_self
    split
    · rw [hcons] at hnew
      exact hnew
    · rename_i hroom
      obtain ⟨hsize, -⟩ := h.blocks block hmem
      have hle := Nat.le_of_not_lt hroom
      rw [hsize] at hle
      refine ⟨hsize, hle, Nat.le_refl _, Or.inl ?_, ?_, ?_, ?_, ?_⟩
      · exact List.mem_append_left _ (List.mem_map_of_mem hmem)
      · exact fun ha => h.formed.not_holds_freepoint hcons () (h.holds ha)
      · exact fun a ha => h.le_freepoint hmem ha
      · exact fun b hb => hcons ▸ List.mem_cons_of_mem _ hb
      · exact fun b hb => List.mem_cons.mp (hcons ▸ hb)

namespace Laid

/-- A chunk at a free point. -/
theorem allocFresh (h : Laid k m) {i : Nat} (hi : i + align ≤ k) :
    Laid k ((m.allocFresh () (2 ^ (i + align))).2.note (.alloc () (m.allocFresh () (2 ^ (i + align))).1)) ∧
      ¬ Returned () (m.allocFresh () (2 ^ (i + align))).1 m.log ∧
      (m.allocFresh () (2 ^ (i + align))).2.size (m.allocFresh () (2 ^ (i + align))).1 = 2 ^ (i + align) ∧
      ∀ a, a ≠ (m.allocFresh () (2 ^ (i + align))).1 →
        (m.allocFresh () (2 ^ (i + align))).2.size a = m.size a := by
  have hroomy := h.roomyBlock (Nat.pow_le_pow_right (by decide : 0 < 2) hi)
  have hformed := (h.formed.allocFresh () (Nat.two_pow_pos (i + align))).1
  unfold Memory.allocFresh at hformed ⊢
  generalize m.roomyBlock () (2 ^ (i + align)) = found at hroomy hformed ⊢
  obtain ⟨block, rest, next⟩ := found
  have hgrow := Nat.le_add_right block.freepoint (2 ^ (i + align))
  refine ⟨h.add hformed rfl rfl rfl (fun a ha => if_neg ha) hroomy.fresh hroomy.next ?_ ?_ ?_ ?_ ?_,
    h.not_returned hroomy.fresh hroomy.address, if_pos rfl, fun a ha => if_neg ha⟩
  · intro x hx
    rcases List.mem_cons.mp hx with rfl | hx
    · exact hroomy.address
    · rcases List.mem_append.mp hx with hx | hx
      · obtain ⟨b, hb, rfl⟩ := List.mem_map.mp hx
        exact Or.inl (List.mem_append_left _ (List.mem_map_of_mem (hroomy.subset b hb)))
      · exact Or.inl (List.mem_append_right _ hx)
  · intro b hb
    rcases List.mem_cons.mp hb with rfl | hb
    · exact ⟨hroomy.size, hroomy.room⟩
    · exact h.blocks b (hroomy.subset b hb)
  · intro a hne ha
    have hsame : (if a = ⟨block.address, block.freepoint⟩ then 2 ^ (i + align) else m.size a) = m.size a :=
      if_neg hne
    cases ha with
    | small j hj hfits hblock =>
      obtain ⟨b, hb, hadd, hle⟩ := hblock
      rw [← hsame] at hle
      refine .small j (hsame.trans hj) hfits ?_
      rcases hroomy.cover b hb with rfl | hb
      · exact ⟨_, List.mem_cons_self, hadd, Nat.le_trans hle hgrow⟩
      · exact ⟨b, List.mem_cons_of_mem _ hb, hadd, hle⟩
    | large hj hblock =>
      obtain ⟨b, hb, hbc, hbs⟩ := hblock
      exact .large (Nat.lt_of_lt_of_eq hj hsame.symm) ⟨b, hb, hbc, hbs.trans hsame.symm⟩
  · refine .small i (if_pos rfl) hi ⟨_, List.mem_cons_self, rfl, ?_⟩
    exact Nat.add_le_add_left (Nat.le_of_eq (if_pos rfl)) _
  · intro a ha hblock
    refine Or.inl ?_
    have hne : a ≠ ⟨block.address, block.freepoint⟩ := by
      rintro rfl
      exact hroomy.fresh ha
    have hsame : (if a = ⟨block.address, block.freepoint⟩ then 2 ^ (i + align) else m.size a) = m.size a :=
      if_neg hne
    have hfront := hroomy.front a ha hblock
    rw [← hsame] at hfront
    exact hfront

/-- No chunk is cut that has not been, and no size changes. -/
theorem keep (h : Laid k m) (formed : Formed m') (created : Exists () m'.log)
    (blocksize : (m'.pool ()).blocksize = (m.pool ()).blocksize) (size : m'.size = m.size)
    (blocks : (m'.pool ()).blocks = (m.pool ()).blocks) (cut : ∀ a, m'.Cut a → m.Cut a)
    (large : ∀ a, m'.Cut a → ∀ b ∈ (m.pool ()).largeblocks, b.chunk = a → b ∈ (m'.pool ()).largeblocks)
    (lists : ∀ i a, a ∈ (m'.pool ()).freelist i → m.size a = 2 ^ (i + align) ∧ i + align ≤ k)
    (returned : ∀ a, Returned () a m'.log →
      m'.Cut a ∨ a.block ∉ (m'.pool ()).addresses ∧ a.block < m'.nextBlock) : Laid k m' := by
  refine ⟨formed, created, blocksize.trans h.blocksize, ?_, fun a ha => ?_, fun a b ha hb hab => ?_,
    ?_, returned⟩
  · rw [blocks]
    exact h.blocks
  · cases h.placed a (cut a ha) with
    | small i hi hfits hblock =>
      exact .small i (by rw [size, hi]) hfits (by rw [size, blocks]; exact hblock)
    | large hi hblock =>
      obtain ⟨b, hb, hbc, hbs⟩ := hblock
      exact .large (by rw [size]; exact hi) ⟨b, large a ha b hb hbc, hbc, by rw [size, hbs]⟩
  · rw [Apart, size]
    exact h.apart a b (cut a ha) (cut b hb) hab
  · rw [size]
    exact lists

/-- A chunk from a free list. -/
theorem allocFree (h : Laid k m) {i : Nat} {rest : List Chunk}
    (hlist : (m.pool ()).freelist i = chunk :: rest) :
    Laid k (((m.setPool () { m.pool () with
      freelist := fun j => if j = i then rest else (m.pool ()).freelist j }).setSize chunk
        (2 ^ (i + align))).note (.alloc () chunk)) := by
  have hhead : chunk ∈ (m.pool ()).freelist i := hlist ▸ List.mem_cons_self
  have hmem : ∀ j a, a ∈ (if j = i then rest else (m.pool ()).freelist j) → a ∈ (m.pool ()).freelist j := by
    intro j a ha
    split at ha
    · rename_i hj
      rw [hj, hlist]
      exact List.mem_cons_of_mem _ ha
    · exact ha
  have hsize : (fun c => if c = chunk then 2 ^ (i + align) else m.size c) = m.size := by
    funext c
    split
    · rename_i hc
      rw [hc, (h.lists i chunk hhead).1]
    · rfl
  refine h.keep (h.formed.allocFree _ hlist).1 h.created rfl hsize rfl ?_ (fun a ha b hb hbc => hb)
    (fun j a ha => h.lists j a (hmem j a ha)) ?_
  · rintro a (ha | ⟨j, hj⟩)
    · rcases live_allocated ha with ⟨-, rfl⟩ | hl
      · exact Or.inr ⟨i, hhead⟩
      · exact Or.inl hl
    · exact Or.inr ⟨j, hmem j a hj⟩
  · intro a ha
    have hnow : Live () chunk (.alloc () chunk :: m.log) := Or.inl ⟨rfl, rfl, h.created⟩
    rcases ha with ⟨-, rfl, -⟩ | ha
    · exact Or.inl (Or.inl hnow)
    · refine (h.returned a ha).imp (fun hc => ?_) id
      by_cases hac : a = chunk
      · exact Or.inl (hac ▸ hnow)
      · rcases hc with hl | ⟨j, hj⟩
        · exact Or.inl (Or.inr hl)
        · refine Or.inr ⟨j, ?_⟩
          show a ∈ if j = i then rest else (m.pool ()).freelist j
          split
          · rename_i hji
            rw [hji, hlist] at hj
            exact (List.mem_cons.mp hj).resolve_left hac
          · exact hj

end Laid

/-- What an allocation returns. -/
structure Allocated (m : Memory Unit) (size : Nat) (chunk : Chunk) (m' : Memory Unit) : Prop where
  large : size + poolHeaderSize ≤ m'.size chunk
  sizes : ∀ a, Live () a m.log → m'.size a = m.size a
  recycled : Returned () chunk m.log →
    m.size chunk = 2 ^ (getFreeIndex (size + poolHeaderSize) + align) ∧
      ((m.pool ()).freelist (getFreeIndex (size + poolHeaderSize))).head? = some chunk

/-- `pool_memory_alloc`. -/
theorem Laid.poolMemoryAlloc (h : Laid k m) (hsmall : size + poolHeaderSize < 2 ^ 32) :
    Laid k (m.poolMemoryAlloc () size).2 ∧
      Allocated m size (m.poolMemoryAlloc () size).1 (m.poolMemoryAlloc () size).2 := by
  have hdead := (h.formed.poolMemoryAlloc () size).2 ()
  have hne : ∀ a, Live () a m.log → a ≠ (m.poolMemoryAlloc () size).1 := by
    rintro a ha rfl
    exact hdead ha
  unfold Memory.poolMemoryAlloc at hne ⊢
  by_cases hsize : (m.pool ()).blocksize < size + poolHeaderSize
  · simp only [hsize, if_true] at hne ⊢
    rw [h.blocksize] at hsize
    obtain ⟨hlaid, hnew, hlarge, hothers⟩ := h.allocLarge hsize hsmall
    exact ⟨hlaid, Nat.le_of_eq hlarge.symm, fun a ha => hothers a (hne a ha), fun hr => absurd hr hnew⟩
  · simp only [hsize, if_false] at hne ⊢
    rw [h.blocksize] at hsize
    have hpos : 0 < size + poolHeaderSize := Nat.succ_pos _
    have hfit := le_getFreeIndex hpos (Nat.le_of_lt hsmall)
    have halign : align ≤ k := by
      by_contra hlt
      have hpow := Nat.pow_lt_pow_right (by decide : 1 < 2) (Nat.lt_of_not_le hlt)
      unfold poolHeaderSize align at *
      omega
    have hidx : getFreeIndex (size + poolHeaderSize) + align ≤ k :=
      getFreeIndex_add_le hpos (Nat.le_of_lt hsmall) halign (Nat.le_of_not_lt hsize)
    unfold allocSmall at hne ⊢
    simp only at hne ⊢
    split
    · rename_i chunk rest hlist
      rw [hlist] at hne
      have hhead : chunk ∈ (m.pool ()).freelist (getFreeIndex (size + poolHeaderSize)) :=
        hlist ▸ List.mem_cons_self
      refine ⟨h.allocFree hlist, Nat.le_trans hfit (Nat.le_of_eq (if_pos rfl).symm),
        fun a ha => if_neg (hne a ha), fun _ => ⟨(h.lists _ _ hhead).1, by rw [hlist]; rfl⟩⟩
    · rename_i hlist
      rw [hlist] at hne
      obtain ⟨hlaid, hnew, hlarge, hothers⟩ := h.allocFresh hidx
      exact ⟨hlaid, Nat.le_trans hfit (Nat.le_of_eq hlarge.symm), fun a ha => hothers a (hne a ha),
        fun hr => absurd hr hnew⟩

/-- A chunk in a block of its own has no more room than has been asked for. -/
theorem Laid.size_poolMemoryAlloc (h : Laid k m) (halign : align ≤ k) (hsmall : size + poolHeaderSize < 2 ^ 32)
    (hlarge : 2 ^ k < (m.poolMemoryAlloc () size).2.size (m.poolMemoryAlloc () size).1) :
    (m.poolMemoryAlloc () size).2.size (m.poolMemoryAlloc () size).1 = size + poolHeaderSize := by
  unfold Memory.poolMemoryAlloc at hlarge ⊢
  by_cases hsize : (m.pool ()).blocksize < size + poolHeaderSize
  · simp only [hsize, if_true] at hlarge ⊢
    rw [h.blocksize] at hsize
    exact (h.allocLarge hsize hsmall).2.2.1
  · exfalso
    simp only [hsize, if_false] at hlarge
    rw [h.blocksize] at hsize
    have hidx := getFreeIndex_add_le (Nat.succ_pos _) (Nat.le_of_lt hsmall) halign (Nat.le_of_not_lt hsize)
    refine Nat.not_lt.mpr (Nat.pow_le_pow_right (by decide : 0 < 2) hidx) ?_
    unfold allocSmall at hlarge
    simp only at hlarge
    split at hlarge
    · exact Nat.lt_of_lt_of_eq hlarge (if_pos rfl)
    · exact Nat.lt_of_lt_of_eq hlarge (h.allocFresh hidx).2.2.1

/-- The block of a large chunk is gone when it has been erased. -/
theorem block_not_mem_eraseP {blocks : List Block} {b : Block} (hnd : (blocks.map Block.address).Nodup)
    (hb : b ∈ blocks) :
    b.address ∉ (blocks.eraseP fun x => x.chunk == b.chunk).map Block.address := by
  induction blocks with
  | nil => cases hb
  | cons x rest ih =>
    rw [List.map_cons, List.nodup_cons] at hnd
    by_cases hx : x.chunk = b.chunk
    · have hadd : x.address = b.address := congrArg Chunk.block hx
      rw [List.eraseP_cons_of_pos (by simpa using hx), ← hadd]
      exact hnd.1
    · rcases List.mem_cons.mp hb with rfl | hb
      · exact absurd rfl hx
      · rw [List.eraseP_cons_of_neg (by simpa using hx), List.map_cons, List.mem_cons, not_or]
        refine ⟨fun hadd => hnd.1 ?_, ih hnd.2 hb⟩
        rw [← hadd]
        exact List.mem_map_of_mem hb

namespace Laid

/-- A large chunk is the chunk of a block of its own. -/
theorem large_block (h : Laid k m) (ha : m.Cut a) (hsize : 2 ^ k < m.size a) :
    ∃ b ∈ (m.pool ()).largeblocks, b.chunk = a := by
  cases h.placed a ha with
  | small i hi hfits _ =>
    have hpow := Nat.pow_le_pow_right (by decide : 0 < 2) hfits
    omega
  | large _ hblock =>
    obtain ⟨b, hb, hbc, -⟩ := hblock
    exact ⟨b, hb, hbc⟩

/-- The block of a large chunk goes with it. -/
theorem freeLarge (h : Laid k m) (hl : Live () chunk m.log) (hsize : 2 ^ k < m.size chunk) :
    Laid k (m.poolMemoryFree () chunk) := by
  have hformed := h.formed.poolMemoryFree hl
  have hblock := h.large_block (Or.inl hl) hsize
  have hnot : ∀ i, chunk ∉ (m.pool ()).freelist i := fun i hi => (h.formed.free () i chunk hi).2 () hl
  rw [← h.blocksize] at hsize
  unfold Memory.poolMemoryFree at hformed ⊢
  simp only [hsize, if_true] at hformed ⊢
  refine h.keep hformed h.created rfl rfl rfl ?_ ?_ h.lists ?_
  · exact fun a ha => ha.imp And.right id
  · rintro a ha b hb rfl
    refine (List.mem_eraseP_of_neg ?_).mpr hb
    rw [beq_iff_eq]
    intro heq
    rcases ha with ha | ⟨i, hi⟩
    · exact ha.1 heq.symm
    · exact hnot i (heq ▸ hi)
  · intro a ha
    by_cases hac : a = chunk
    · obtain ⟨b, hb, rfl⟩ := hblock
      have hnd := (h.formed.distinct ()).addresses
      unfold Pool.addresses at hnd
      obtain ⟨-, hlarge, hdisj⟩ := List.nodup_append.mp hnd
      have hmem : b.address ∈ (m.pool ()).largeblocks.map Block.address := List.mem_map_of_mem hb
      rw [hac]
      refine Or.inr ⟨fun hx => ?_, h.formed.old () _ (List.mem_append_right _ hmem)⟩
      rcases List.mem_append.mp hx with hx | hx
      · exact hdisj _ hx _ hmem rfl
      · exact block_not_mem_eraseP hlarge hb hx
    · refine (h.returned a ha).imp (fun hc => hc.imp (fun hla => ⟨Ne.symm hac, hla⟩) id) ?_
      rintro ⟨hgone, hlt⟩
      refine ⟨fun hx => hgone ?_, hlt⟩
      rcases List.mem_append.mp hx with hx | hx
      · exact List.mem_append_left _ hx
      · exact List.mem_append_right _ ((List.eraseP_sublist.map Block.address).subset hx)

/-- Another chunk goes to the free list of its size. -/
theorem freeSmall (h : Laid k m) (hk : k ≤ 32) (hl : Live () chunk m.log) (hsize : ¬ 2 ^ k < m.size chunk) :
    Laid k (m.poolMemoryFree () chunk) := by
  have hformed := h.formed.poolMemoryFree hl
  cases h.placed chunk (Or.inl hl) with
  | large hlarge _ => exact absurd hlarge hsize
  | small i hi hfits _ =>
    have hidx : getFreeIndex (m.size chunk) = i := by
      rw [hi]
      exact getFreeIndex_pow (Nat.le_trans hfits hk)
    rw [← h.blocksize] at hsize
    unfold Memory.poolMemoryFree at hformed ⊢
    simp only [hsize, if_false, hidx] at hformed ⊢
    have hmem : ∀ j a, a ∈ (if j = i then chunk :: (m.pool ()).freelist j else (m.pool ()).freelist j) →
        j = i ∧ a = chunk ∨ a ∈ (m.pool ()).freelist j := by
      intro j a ha
      split at ha
      · rename_i hj
        exact (List.mem_cons.mp ha).imp (fun hac => ⟨hj, hac⟩) id
      · exact Or.inr ha
    refine h.keep hformed h.created rfl rfl rfl ?_ (fun a _ b hb _ => hb) ?_ ?_
    · rintro a (ha | ⟨j, hj⟩)
      · exact Or.inl ha.2
      · rcases hmem j a hj with ⟨-, rfl⟩ | hj
        · exact Or.inl hl
        · exact Or.inr ⟨j, hj⟩
    · intro j a ha
      rcases hmem j a ha with ⟨rfl, rfl⟩ | ha
      · exact ⟨hi, hfits⟩
      · exact h.lists j a ha
    · intro a ha
      refine (h.returned a ha).imp (fun hc => ?_) id
      by_cases hac : a = chunk
      · exact Or.inr ⟨i, by rw [hac]; simp [setPool, note]⟩
      · rcases hc with hla | ⟨j, hj⟩
        · exact Or.inl ⟨Ne.symm hac, hla⟩
        · refine Or.inr ⟨j, ?_⟩
          show a ∈ if j = i then chunk :: (m.pool ()).freelist j else (m.pool ()).freelist j
          split
          · exact List.mem_cons_of_mem _ hj
          · exact hj

/-- `pool_memory_free` of a chunk in use. -/
theorem poolMemoryFree (h : Laid k m) (hk : k ≤ 32) (hl : Live () chunk m.log) :
    Laid k (m.poolMemoryFree () chunk) := by
  by_cases hsize : 2 ^ k < m.size chunk
  · exact h.freeLarge hl hsize
  · exact h.freeSmall hk hl hsize

end Laid

/-- A chunk that is used again for another size has room for it. -/
theorem Laid.of_fits (h : Laid k m) (halign : align ≤ k) (hk : k ≤ 32) (hl : Live () chunk m.log)
    (hsmall : size + poolHeaderSize < 2 ^ 32) (hfits : m.fits () chunk size = true) :
    size + poolHeaderSize ≤ m.size chunk := by
  unfold fits at hfits
  simp only [Bool.or_eq_true, Bool.and_eq_true, decide_eq_true_eq, beq_iff_eq, h.blocksize] at hfits
  have hpos : 0 < size + poolHeaderSize := Nat.succ_pos _
  cases h.placed chunk (Or.inl hl) with
  | small i hi hle _ =>
    have hheader : poolHeaderSize ≤ m.size chunk := by
      have hpow := Nat.pow_le_pow_right (by decide : 0 < 2) (Nat.le_add_left align i)
      rw [hi]
      exact hpow
    rcases hfits with (hshort | hroom) | ⟨-, hclass⟩
    · omega
    · exact hroom
    · rw [hi, getFreeIndex_pow (Nat.le_trans hle hk)] at hclass
      rw [hi]
      exact (getFreeIndex_le_iff i hpos (Nat.le_of_lt hsmall)).mp (Nat.le_of_eq hclass)
  | large hlarge _ =>
    have hheader : poolHeaderSize < m.size chunk :=
      Nat.lt_of_le_of_lt (Nat.pow_le_pow_right (by decide : 0 < 2) halign) hlarge
    rcases hfits with (hshort | hroom) | ⟨⟨-, hle⟩, -⟩
    · omega
    · exact hroom
    · omega

end Memory

end PgPool
