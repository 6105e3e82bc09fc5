import Mathlib.Algebra.Ring.Nat
import Mathlib.Data.List.Nodup
import PgPool.Lib.Region

/-!
# Memory pools

`pool_memory.c`: a pool gets its memory from `malloc` in blocks, cuts them into chunks and keeps the
chunks that have been freed in lists by size.  A chunk that is too large for a block gets a block of
its own.

A chunk is referred to by its block and its offset there, and a pointer by the chunk it points into.
`malloc` never returns an address twice here, and never fails.  `log` records the calls.
-/

namespace PgPool

open Region

/-- `POOL_CHUNK`. -/
structure Chunk where
  block : Nat
  offset : Nat
  deriving DecidableEq, Repr

/-- `POOL_BLOCK`.  `freepoint` is relative to the block; that of a large block is never read. -/
structure Block where
  address : Nat
  size : Nat
  allocsize : Nat
  freepoint : Nat
  deriving DecidableEq, Repr

/-- `POOL_MEMORY_POOL`. -/
structure Pool where
  blocksize : Nat
  blocks : List Block
  largeblocks : List Block
  freelist : Nat → List Chunk

/-- `PARSER_BLOCK_SIZE`. -/
def parserBlockSize : Nat := 8192

/-- `PREPARE_BLOCK_SIZE`. -/
def prepareBlockSize : Nat := 1024

/-- `ALIGN`. -/
def align : Nat := 3

/-- `POOL_HEADER_SIZE`, the union of a size and a pointer. -/
def poolHeaderSize : Nat := 8

/-- The pools by their addresses `ρ`.  `size` is the header of a chunk that is in use. -/
structure Memory (ρ : Type) where
  pool : ρ → Pool
  size : Chunk → Nat
  nextBlock : Nat
  log : History ρ Chunk

/-- A pool without blocks. -/
def Pool.empty (blocksize : Nat) : Pool := ⟨blocksize, [], [], fun _ => []⟩

/-- The chunk at the start of a block. -/
def Block.chunk (b : Block) : Chunk := ⟨b.address, 0⟩

/-- The loop of `get_free_index` over the bits of an unsigned int. -/
def freeIndexLoop : Nat → Nat → Nat → Nat
  | 0, _, idx => idx
  | fuel + 1, size, idx => if size = 0 then idx else freeIndexLoop fuel (size / 2) (idx + 1)

/-- `get_free_index`. -/
def getFreeIndex (size : Nat) : Nat :=
  if 0 < size then freeIndexLoop 32 ((size - 1) / 2 ^ align) 0 else 0

namespace Memory

variable {ρ : Type} [DecidableEq ρ]

/-- Overwrite a pool. -/
def setPool (r : ρ) (p : Pool) (m : Memory ρ) : Memory ρ :=
  { m with pool := fun s => if s = r then p else m.pool s }

/-- Overwrite the header of a chunk. -/
def setSize (chunk : Chunk) (size : Nat) (m : Memory ρ) : Memory ρ :=
  { m with size := fun c => if c = chunk then size else m.size c }

/-- Record a call. -/
def note (e : Event ρ Chunk) (m : Memory ρ) : Memory ρ := { m with log := e :: m.log }

/-- The number of `malloc`'s next address. -/
def setNextBlock (n : Nat) (m : Memory ρ) : Memory ρ := { m with nextBlock := n }

/-- `pool_memory_create`. -/
def poolMemoryCreate (r : ρ) (blocksize : Nat) (m : Memory ρ) : Memory ρ :=
  (m.setPool r (.empty blocksize)).note (.create r)

/-- A chunk in a block of its own. -/
def allocLarge (r : ρ) (size : Nat) (m : Memory ρ) : Chunk × Memory ρ :=
  let p := m.pool r
  let need := size + poolHeaderSize
  let block : Block := ⟨m.nextBlock, need, need, need⟩
  -- the header is an unsigned int
  (block.chunk,
    ((m.setPool r { p with largeblocks := block :: p.largeblocks }).setSize block.chunk
      (need % 2 ^ 32)).setNextBlock (m.nextBlock + 1))

/-- The block that has room for a chunk, the blocks behind it, and `malloc`'s next address. -/
def roomyBlock (r : ρ) (allocsize : Nat) (m : Memory ρ) : Block × List Block × Nat :=
  let p := m.pool r
  let fresh : Block := ⟨m.nextBlock, p.blocksize, 0, 0⟩
  match p.blocks with
  | [] => (fresh, [], m.nextBlock + 1)
  | block :: rest =>
      if block.size < block.freepoint + allocsize then (fresh, block :: rest, m.nextBlock + 1)
      else (block, rest, m.nextBlock)

/-- A chunk at the free point of a block. -/
def allocFresh (r : ρ) (allocsize : Nat) (m : Memory ρ) : Chunk × Memory ρ :=
  let p := m.pool r
  let (block, rest, next) := m.roomyBlock r allocsize
  let chunk : Chunk := ⟨block.address, block.freepoint⟩
  let block := { block with
    freepoint := block.freepoint + allocsize
    allocsize := block.allocsize + allocsize }
  (chunk,
    ((m.setPool r { p with blocks := block :: rest }).setSize chunk allocsize).setNextBlock next)

/-- A chunk of a size for which there is a free list. -/
def allocSmall (r : ρ) (size : Nat) (m : Memory ρ) : Chunk × Memory ρ :=
  let p := m.pool r
  let fidx := getFreeIndex (size + poolHeaderSize)
  let allocsize := 2 ^ (fidx + align)
  match p.freelist fidx with
  | chunk :: rest =>
      (chunk,
        (m.setPool r { p with freelist := fun i => if i = fidx then rest else p.freelist i }).setSize
          chunk allocsize)
  | [] => m.allocFresh r allocsize

/-- `pool_memory_alloc`. -/
def poolMemoryAlloc (r : ρ) (size : Nat) (m : Memory ρ) : Chunk × Memory ρ :=
  let (chunk, m) :=
    if (m.pool r).blocksize < size + poolHeaderSize then m.allocLarge r size
    else m.allocSmall r size
  (chunk, m.note (.alloc r chunk))

/-- `pool_memory_free`, on a pointer that is not NULL.  A large chunk that no block is found for
stays where it is. -/
def poolMemoryFree (r : ρ) (chunk : Chunk) (m : Memory ρ) : Memory ρ :=
  let p := m.pool r
  let p :=
    if p.blocksize < m.size chunk then
      { p with largeblocks := p.largeblocks.eraseP fun b => b.chunk == chunk }
    else
      let fidx := getFreeIndex (m.size chunk)
      { p with freelist := fun i => if i = fidx then chunk :: p.freelist i else p.freelist i }
  (m.setPool r p).note (.free r chunk)

/-- The chunk is used again for the new size.  The first comparison is one of unsigned numbers. -/
def fits (r : ρ) (chunk : Chunk) (size : Nat) (m : Memory ρ) : Bool :=
  m.size chunk < poolHeaderSize || size + poolHeaderSize ≤ m.size chunk ||
    (size + poolHeaderSize ≤ (m.pool r).blocksize && m.size chunk ≤ (m.pool r).blocksize &&
      getFreeIndex (size + poolHeaderSize) == getFreeIndex (m.size chunk))

/-- `pool_memory_realloc`. -/
def poolMemoryRealloc (r : ρ) (chunk : Chunk) (size : Nat) (m : Memory ρ) : Chunk × Memory ρ :=
  let m := m.note (.resize r chunk)
  if m.fits r chunk size then (chunk, m)
  else
    let (p, m) := m.poolMemoryAlloc r size
    (p, m.poolMemoryFree r chunk)

/-- `pool_memory_delete`.  With `reuse` the first block is kept. -/
def poolMemoryDelete (r : ρ) (reuse : Bool) (m : Memory ρ) : Memory ρ :=
  if reuse then
    let p := m.pool r
    let kept := (p.blocks.take 1).map fun b => { b with allocsize := 0, freepoint := 0 }
    (m.setPool r ⟨p.blocksize, kept, [], fun _ => []⟩).note (.clear r)
  else (m.setPool r (.empty 0)).note (.delete r)

end Memory

end PgPool
