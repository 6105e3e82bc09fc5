import PgPool.Lib.Buffer

/-!
# Reading from a connection

The readers of `pool_stream.c`.  They share the pending buffer `hp[po .. po+len)`: what a read from
the socket brings beyond the request is saved there, and `pool_unread` pushes bytes back into it.

The bytes still to come on the socket, and how the kernel splits them into reads, belong to the
state.  A call that meets the end of the stream, or an error of the system, is not one that succeeds.
-/

namespace PgPool

/-- `READBUFSZ`. -/
def readBufSz : Nat := 1024

/-- The sizes to which the source enlarges a buffer. -/
def enlarged (n : Nat) : Nat := (n / readBufSz + 1) * readBufSz

theorem lt_enlarged (n : Nat) : n < enlarged n := by
  unfold enlarged readBufSz
  omega

/-- The part of `POOL_CONNECTION` that the readers use.  `hp.size` is the size of the block that
`malloc` or `realloc` has returned, which `bufsz` need not be. -/
structure PoolConnection where
  hp : Buffer
  po : Nat
  bufsz : Nat
  len : Nat
  sbufsz : Nat
  bufsz2 : Nat
  inside : po + len ≤ hp.size
  bufsz_le : bufsz ≤ hp.size

/-- The bytes that arrive, and the sizes of the reads by which the kernel hands them out, less one. -/
structure Socket where
  bytes : List UInt8
  splits : List Nat

/-- A connection and its socket. -/
structure Stream where
  cp : PoolConnection
  sock : Socket

namespace PoolConnection

/-- `pool_open`. -/
def opened (hp : Nat → UInt8) : PoolConnection where
  hp := ⟨readBufSz, hp⟩
  po := 0
  bufsz := readBufSz
  len := 0
  sbufsz := 0
  bufsz2 := 0
  inside := Nat.zero_le _
  bufsz_le := Nat.le_refl _

variable (fresh : Nat → UInt8) (data : List UInt8) (n : Nat) (cp : PoolConnection)

/-- The pending bytes. -/
def pending : List UInt8 := cp.hp.read cp.po cp.len

/-- The offset after `save_pending_data` has set it to 0, to be safe, where nothing is pending. -/
def offset : Nat := if cp.len = 0 then 0 else cp.po

/-- `save_pending_data`. -/
def savePendingData : PoolConnection :=
  let reqlen := cp.offset + cp.len + data.length
  if h : cp.bufsz < reqlen then
    { cp with
      hp := (cp.hp.realloc fresh (enlarged reqlen)).write (cp.offset + cp.len) data
      po := cp.offset
      bufsz := enlarged reqlen
      len := cp.len + data.length
      inside := by
        have := lt_enlarged reqlen
        simp only [Buffer.size_write, Buffer.size_realloc]
        omega
      bufsz_le := Nat.le_refl _ }
  else
    { cp with
      hp := cp.hp.write (cp.offset + cp.len) data
      po := cp.offset
      len := cp.len + data.length
      inside := by
        have := cp.bufsz_le
        simp only [Buffer.size_write]
        omega }

/-- `consume_pending_data`: up to `n` bytes are taken. -/
def consumePendingData : List UInt8 × PoolConnection :=
  let consumeSize := min n cp.len
  (cp.hp.read cp.po consumeSize,
    { cp with
      po := if cp.len - consumeSize = 0 then 0 else cp.po + consumeSize
      len := cp.len - consumeSize
      inside := by
        have := cp.inside
        split <;> omega })

/-- `pool_unread`.  The size of an enlarged buffer is not recorded in `bufsz`. -/
def poolUnread : PoolConnection :=
  if h : cp.bufsz < cp.len + data.length then
    { cp with
      hp := ((cp.hp.realloc fresh (enlarged (cp.len + data.length))).write data.length
        ((cp.hp.realloc fresh (enlarged (cp.len + data.length))).read cp.po cp.len)).write 0 data
      po := 0
      len := cp.len + data.length
      inside := by
        have := lt_enlarged (cp.len + data.length)
        simp only [Buffer.size_write, Buffer.size_realloc]
        omega
      bufsz_le := by
        have := lt_enlarged (cp.len + data.length)
        simp only [Buffer.size_write, Buffer.size_realloc]
        omega }
  else
    { cp with
      hp := (cp.hp.write data.length (cp.hp.read cp.po cp.len)).write 0 data
      po := 0
      len := cp.len + data.length
      inside := by
        have := cp.bufsz_le
        simp only [Buffer.size_write]
        omega }

end PoolConnection

/-! ## The readers -/

/-- The bytes that one `read` of at most `size` bytes returns. -/
def readlen (k size : Nat) (bytes : List UInt8) : Nat := min (k + 1) (min size bytes.length)

section

variable (fresh : Nat → UInt8) (cp : PoolConnection)

/-- The loop of `pool_read`: `len` bytes are still wanted. -/
def poolReadLoop : List Nat → List UInt8 → Nat → Option (List UInt8 × Stream)
  | splits, bytes, 0 => some ([], ⟨cp, ⟨bytes, splits⟩⟩)
  | [], _, _ + 1 => none
  | k :: splits, bytes, len + 1 =>
      let n := readlen k readBufSz bytes
      if n = 0 then none
      -- overrun: the rest goes to the pending buffer
      else if len + 1 < n then
        some (bytes.take (len + 1),
          ⟨cp.savePendingData fresh ((bytes.take n).drop (len + 1)), ⟨bytes.drop n, splits⟩⟩)
      else
        match poolReadLoop splits (bytes.drop n) (len + 1 - n) with
        | none => none
        | some (data, s) => some (bytes.take n ++ data, s)

/-- The loop of `pool_read2`, which never reads more than is wanted. -/
def poolRead2Loop : List Nat → List UInt8 → Nat → Option (List UInt8 × Stream)
  | splits, bytes, 0 => some ([], ⟨cp, ⟨bytes, splits⟩⟩)
  | [], _, _ + 1 => none
  | k :: splits, bytes, len + 1 =>
      let n := readlen k (len + 1) bytes
      if n = 0 then none
      else
        match poolRead2Loop splits (bytes.drop n) (len + 1 - n) with
        | none => none
        | some (data, s) => some (bytes.take n ++ data, s)

/-- `mystrlen` and `mystrlinelen`: the length up to a terminator, which is included, and whether
there is one. -/
def mystrlen (stop : UInt8 → Bool) : List UInt8 → Nat × Bool
  | [] => (0, false)
  | b :: rest => if stop b then (1, true) else ((mystrlen stop rest).1 + 1, (mystrlen stop rest).2)

/-- The loop of `pool_read_string`: `readp` bytes are in the buffer already, of which `readsize` is
what a read may fill. -/
def stringLoop (stop : UInt8 → Bool) :
    List Nat → List UInt8 → Nat → Nat → Nat → Option (List UInt8 × Stream)
  | [], _, _, _, _ => none
  | k :: splits, bytes, sbufsz, readp, readsize =>
      let n := readlen k readsize bytes
      if n = 0 then none
      else
        let (strlength, flag) := mystrlen stop (bytes.take n)
        let cp := { cp with sbufsz := sbufsz }
        -- overrun
        if strlength < n then
          some (bytes.take strlength,
            ⟨cp.savePendingData fresh ((bytes.take n).drop strlength), ⟨bytes.drop n, splits⟩⟩)
        else if flag then some (bytes.take n, ⟨cp, ⟨bytes.drop n, splits⟩⟩)
        else
          let sbufsz := if sbufsz < readp + n + readBufSz then sbufsz + readBufSz else sbufsz
          match stringLoop stop splits (bytes.drop n) sbufsz (readp + n) readBufSz with
          | none => none
          | some (data, s) => some (bytes.take n ++ data, s)

end

/-- What ends a string: a null character, or, for a line, a newline too. -/
def terminates (line : Bool) (b : UInt8) : Bool := b == 0 || line && b == 10

namespace Stream

variable (fresh : Nat → UInt8) (s : Stream)

/-- `pool_read`. -/
def poolRead (len : Nat) : Option (List UInt8 × Stream) :=
  let (data, cp) := s.cp.consumePendingData len
  match poolReadLoop fresh cp s.sock.splits s.sock.bytes (len - data.length) with
  | none => none
  | some (rest, s) => some (data ++ rest, s)

/-- `pool_read2`. -/
def poolRead2 (len : Nat) : Option (List UInt8 × Stream) :=
  let reqSize := s.cp.len + len
  let cp := if s.cp.bufsz2 < reqSize then { s.cp with bufsz2 := enlarged (reqSize + 1) } else s.cp
  let (data, cp) := cp.consumePendingData len
  match poolRead2Loop cp s.sock.splits s.sock.bytes (len - data.length) with
  | none => none
  | some (rest, s) => some (data ++ rest, s)

/-- `pool_read_string`. -/
def poolReadString (line : Bool) : Option (List UInt8 × Stream) :=
  let sbufsz := if s.cp.sbufsz = 0 then readBufSz else s.cp.sbufsz
  if s.cp.len = 0 then
    stringLoop fresh s.cp (terminates line) s.sock.splits s.sock.bytes sbufsz 0 sbufsz
  else
    let (strlength, flag) := mystrlen (terminates line) s.cp.pending
    let sbufsz := if sbufsz < strlength + 1 then enlarged (strlength + 1) else sbufsz
    let (data, cp) := s.cp.consumePendingData strlength
    if flag then some (data, ⟨{ cp with sbufsz := sbufsz }, s.sock⟩)
    else
      match stringLoop fresh cp (terminates line) s.sock.splits s.sock.bytes sbufsz strlength
          (sbufsz - strlength) with
      | none => none
      | some (rest, s) => some (data ++ rest, s)

/-- `pool_unread` on the connection of a stream. -/
def poolUnread (data : List UInt8) : Stream := { s with cp := s.cp.poolUnread fresh data }

/-- The bytes that the next reads will hand out: the pending ones and those still to arrive. -/
def ahead : List UInt8 := s.cp.pending ++ s.sock.bytes

end Stream

end PgPool
