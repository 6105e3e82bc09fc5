import Mathlib.Data.List.Basic

/-!
# Memory buffers

A block of memory of a known size.  `read` and `write` stand for `memmove` out of and into the
block, `realloc` for a block of another size that keeps the bytes which both have.  Nothing is known
of the other bytes, nor of those outside of the block, so that they are a parameter.
-/

/-- A block of memory. -/
structure Buffer where
  size : Nat
  byteAt : Nat → UInt8

namespace Buffer

/-- `len` bytes from an offset on. -/
def read (off len : Nat) (b : Buffer) : List UInt8 :=
  (List.range len).map fun j => b.byteAt (off + j)

/-- Copy some bytes to an offset. -/
def write (off : Nat) (data : List UInt8) (b : Buffer) : Buffer where
  size := b.size
  byteAt j := if off ≤ j then (data[j - off]?).getD (b.byteAt j) else b.byteAt j

/-- A block of another size. -/
def realloc (fresh : Nat → UInt8) (size : Nat) (b : Buffer) : Buffer where
  size := size
  byteAt j := if j < b.size ∧ j < size then b.byteAt j else fresh j

variable {b c : Buffer} {fresh : Nat → UInt8} {data : List UInt8} {off len size i n : Nat}

@[simp] theorem size_write : (b.write off data).size = b.size := rfl

@[simp] theorem size_realloc : (b.realloc fresh size).size = size := rfl

@[simp] theorem length_read : (b.read off len).length = len := by
  simp [read]

@[simp] theorem read_zero : b.read off 0 = [] := rfl

theorem getElem?_read (hi : i < len) : (b.read off len)[i]? = some (b.byteAt (off + i)) := by
  simp [read, hi]

/-- Two stretches of memory with the same bytes. -/
theorem read_congr {off' : Nat} (h : ∀ i, i < len → b.byteAt (off + i) = c.byteAt (off' + i)) :
    b.read off len = c.read off' len := by
  unfold read
  apply List.map_congr_left
  intro i hi
  exact h i (List.mem_range.1 hi)

theorem read_add (m n : Nat) : b.read off (m + n) = b.read off m ++ b.read (off + m) n := by
  unfold read
  rw [List.range_add, List.map_append, List.map_map]
  congr 1
  apply List.map_congr_left
  intro j _
  simp [Nat.add_assoc]

theorem take_read (h : n ≤ len) : (b.read off len).take n = b.read off n := by
  obtain ⟨k, rfl⟩ := Nat.exists_eq_add_of_le h
  rw [read_add, List.take_left' length_read]

theorem drop_read (h : n ≤ len) : (b.read off len).drop n = b.read (off + n) (len - n) := by
  obtain ⟨k, rfl⟩ := Nat.exists_eq_add_of_le h
  rw [read_add, List.drop_left' length_read, Nat.add_sub_cancel_left]

/-- What has been written is read back. -/
theorem read_write : (b.write off data).read off data.length = data := by
  apply List.ext_getElem?
  intro i
  by_cases hi : i < data.length
  · rw [getElem?_read hi]
    simp [write, hi]
  · rw [List.getElem?_eq_none (by rw [length_read]; omega), List.getElem?_eq_none (by omega)]

/-- Two pieces next to each other are one. -/
theorem write_append {more : List UInt8} :
    (b.write off data).write (off + data.length) more = b.write off (data ++ more) := by
  unfold write
  simp only [mk.injEq, true_and]
  funext j
  by_cases hmore : off + data.length ≤ j
  · have hle : off ≤ j := by omega
    have hout : data.length ≤ j - off := by omega
    rw [if_pos hmore, if_pos hle, if_pos hle, List.getElem?_eq_none hout,
      List.getElem?_append_right hout, Nat.sub_sub]
    rfl
  · by_cases hle : off ≤ j
    · have hin : j - off < data.length := by omega
      rw [if_neg hmore, if_pos hle, if_pos hle, List.getElem?_append_left hin]
    · rw [if_neg hmore, if_neg hle, if_neg hle]

/-- Writing leaves the bytes in front alone. -/
theorem read_write_before {off' : Nat} (h : off' + len ≤ off) :
    (b.write off data).read off' len = b.read off' len := by
  apply read_congr
  intro i hi
  have hlt : ¬ off ≤ off' + i := by omega
  simp [write, hlt]

/-- Writing leaves the bytes behind alone. -/
theorem read_write_behind {off' : Nat} (h : off + data.length ≤ off') :
    (b.write off data).read off' len = b.read off' len := by
  apply read_congr
  intro i hi
  have hge : data.length ≤ off' + i - off := by omega
  simp [write, hge]

/-- A new block has the bytes of the old one, as far as both reach. -/
theorem read_realloc (h : off + len ≤ b.size) (h' : off + len ≤ size) :
    (b.realloc fresh size).read off len = b.read off len := by
  apply read_congr
  intro i hi
  have hlt : off + i < b.size ∧ off + i < size := by omega
  simp [realloc, hlt]

/-- The bytes that a smaller block does not have are not known. -/
theorem read_realloc_ne (hcut : size < off + len) (hlen : 0 < len) :
    ∃ fresh, (b.realloc fresh size).read off len ≠ b.read off len := by
  refine ⟨fun j => b.byteAt j + 1, fun heq => ?_⟩
  have hlast := congrArg (fun l => l[len - 1]?) heq
  have hout : ¬ (off + (len - 1) < b.size ∧ off + (len - 1) < size) := by omega
  simp only [getElem?_read (show len - 1 < len by omega), realloc, hout, if_false,
    Option.some.injEq] at hlast
  simp at hlast

end Buffer
