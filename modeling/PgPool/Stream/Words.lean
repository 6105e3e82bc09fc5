import PgPool.Stream.Message

/-!
# Words of messages

Words of two and four bytes in network order, and the `short` and `int` that the source takes them for.
-/

namespace PgPool.Words

/-- The two bytes of a number. -/
def htons (n : Nat) : List UInt8 := [UInt8.ofNat (n / 2 ^ 8), UInt8.ofNat n]

def ntohs (bytes : List UInt8) : Nat := ntohl bytes

@[simp] theorem length_htons (n : Nat) : (htons n).length = 2 := rfl

theorem ntohs_htons {n : Nat} (h : n < 2 ^ 16) : ntohs (htons n) = n := by
  simp only [ntohs, ntohl, htons, List.foldl_cons, List.foldl_nil, UInt8.toNat_ofNat']
  omega

/-- An `int`. -/
def int32 (n : Int) : Int := n.bmod (2 ^ 32)

/-- `(int16) ntohs`. -/
def int16 (word : List UInt8) : Int :=
  if ntohs word < 2 ^ 15 then ntohs word else ntohs word - 2 ^ 16

theorem int16_htons {n : Nat} (h : n < 2 ^ 15) : int16 (htons n) = n := by
  unfold int16
  rw [ntohs_htons (by omega), if_pos h]

theorem int16_htons_neg {n : Nat} (h : 2 ^ 15 ≤ n) (h' : n < 2 ^ 16) : int16 (htons n) < 0 := by
  unfold int16
  rw [ntohs_htons h', if_neg (by omega)]
  omega

theorem int32_natCast_iff {n : Nat} : int32 n = n ↔ n < 2 ^ 31 := by
  constructor
  · intro h
    have hlt : int32 n < (2 ^ 32 + 1) / 2 := Int.bmod_lt (by decide)
    omega
  · intro h
    exact Int.bmod_eq_of_le (by omega) (by omega)

theorem int32_add (a b : Int) : int32 (int32 a + b) = int32 (a + b) := Int.bmod_add_bmod

/-- An `int` that is too large by less than 2 ^ 32 is another one. -/
theorem int32_ne {a b : Nat} (h : b < a) (h' : a < b + 2 ^ 32) : int32 a ≠ b := by
  intro heq
  have hmod : int32 a % ((2 ^ 32 : Nat) : Int) = a % ((2 ^ 32 : Nat) : Int) := Int.bmod_emod
  rw [heq] at hmod
  omega

end PgPool.Words
