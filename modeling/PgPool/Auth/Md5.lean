import Mathlib.Algebra.Ring.Nat
import Mathlib.Data.List.GetD

/-!
# The digest of a password

`md5.c`: the padding of a message, the rounds over its blocks, written out as in the source, and the
hexadecimal digits.  Over it the digest as a loop: one rule for a step, and a table that says which word,
which shift and which constant the step takes.
-/

namespace PgPool.Md5

/-! ## The source -/

/-- The constants of `T`. -/
def T : List UInt32 :=
  [0xd76aa478, 0xe8c7b756, 0x242070db, 0xc1bdceee, 0xf57c0faf, 0x4787c62a, 0xa8304613, 0xfd469501,
   0x698098d8, 0x8b44f7af, 0xffff5bb1, 0x895cd7be, 0x6b901122, 0xfd987193, 0xa679438e, 0x49b40821,
   0xf61e2562, 0xc040b340, 0x265e5a51, 0xe9b6c7aa, 0xd62f105d, 0x02441453, 0xd8a1e681, 0xe7d3fbc8,
   0x21e1cde6, 0xc33707d6, 0xf4d50d87, 0x455a14ed, 0xa9e3e905, 0xfcefa3f8, 0x676f02d9, 0x8d2a4c8a,
   0xfffa3942, 0x8771f681, 0x6d9d6122, 0xfde5380c, 0xa4beea44, 0x4bdecfa9, 0xf6bb4b60, 0xbebfbc70,
   0x289b7ec6, 0xeaa127fa, 0xd4ef3085, 0x04881d05, 0xd9d4d039, 0xe6db99e5, 0x1fa27cf8, 0xc4ac5665,
   0xf4292244, 0x432aff97, 0xab9423a7, 0xfc93a039, 0x655b59c3, 0x8f0ccc92, 0xffeff47d, 0x85845dd1,
   0x6fa87e4f, 0xfe2ce6e0, 0xa3014314, 0x4e0811a1, 0xf7537e82, 0xbd3af235, 0x2ad7d2bb, 0xeb86d391]

def F (x y z : UInt32) : UInt32 := (x &&& y) ||| (~~~x &&& z)
def G (x y z : UInt32) : UInt32 := (x &&& z) ||| (y &&& ~~~z)
def H (x y z : UInt32) : UInt32 := (x ^^^ y) ^^^ z
def I (x y z : UInt32) : UInt32 := y ^^^ (x ||| ~~~z)

/-- `ROTATE_LEFT`. -/
def rotateLeft (x n : UInt32) : UInt32 := (x <<< n) ||| (x >>> (32 - n))

/-- `FF`, `GG`, `HH` and `II` are this with their function: the new value of the first variable. -/
def update (f : UInt32 → UInt32 → UInt32 → UInt32) (a b c d x s ac : UInt32) : UInt32 :=
  rotateLeft (a + (f b c d + x + ac)) s + b

/-- The variables `a`, `b`, `c`, `d`, and the array `state`. -/
structure State where
  a : UInt32
  b : UInt32
  c : UInt32
  d : UInt32
  deriving DecidableEq, Repr

namespace State

variable (f : UInt32 → UInt32 → UInt32 → UInt32) (x s ac : UInt32) (st : State)

/-- `FF(a, b, c, d, x, s, ac)`. -/
def ofA : State := { st with a := update f st.a st.b st.c st.d x s ac }

/-- `FF(d, a, b, c, x, s, ac)`. -/
def ofD : State := { st with d := update f st.d st.a st.b st.c x s ac }

/-- `FF(c, d, a, b, x, s, ac)`. -/
def ofC : State := { st with c := update f st.c st.d st.a st.b x s ac }

/-- `FF(b, c, d, a, x, s, ac)`. -/
def ofB : State := { st with b := update f st.b st.c st.d st.a x s ac }

end State

/-- The first sixteen lines of `doTheRounds`. -/
def round1 (X : Nat → UInt32) (st : State) : State :=
  let st := st.ofA F (X 0) 7 (T.getD 0 0)
  let st := st.ofD F (X 1) 12 (T.getD 1 0)
  let st := st.ofC F (X 2) 17 (T.getD 2 0)
  let st := st.ofB F (X 3) 22 (T.getD 3 0)
  let st := st.ofA F (X 4) 7 (T.getD 4 0)
  let st := st.ofD F (X 5) 12 (T.getD 5 0)
  let st := st.ofC F (X 6) 17 (T.getD 6 0)
  let st := st.ofB F (X 7) 22 (T.getD 7 0)
  let st := st.ofA F (X 8) 7 (T.getD 8 0)
  let st := st.ofD F (X 9) 12 (T.getD 9 0)
  let st := st.ofC F (X 10) 17 (T.getD 10 0)
  let st := st.ofB F (X 11) 22 (T.getD 11 0)
  let st := st.ofA F (X 12) 7 (T.getD 12 0)
  let st := st.ofD F (X 13) 12 (T.getD 13 0)
  let st := st.ofC F (X 14) 17 (T.getD 14 0)
  let st := st.ofB F (X 15) 22 (T.getD 15 0)
  st

/-- The next sixteen lines. -/
def round2 (X : Nat → UInt32) (st : State) : State :=
  let st := st.ofA G (X 1) 5 (T.getD 16 0)
  let st := st.ofD G (X 6) 9 (T.getD 17 0)
  let st := st.ofC G (X 11) 14 (T.getD 18 0)
  let st := st.ofB G (X 0) 20 (T.getD 19 0)
  let st := st.ofA G (X 5) 5 (T.getD 20 0)
  let st := st.ofD G (X 10) 9 (T.getD 21 0)
  let st := st.ofC G (X 15) 14 (T.getD 22 0)
  let st := st.ofB G (X 4) 20 (T.getD 23 0)
  let st := st.ofA G (X 9) 5 (T.getD 24 0)
  let st := st.ofD G (X 14) 9 (T.getD 25 0)
  let st := st.ofC G (X 3) 14 (T.getD 26 0)
  let st := st.ofB G (X 8) 20 (T.getD 27 0)
  let st := st.ofA G (X 13) 5 (T.getD 28 0)
  let st := st.ofD G (X 2) 9 (T.getD 29 0)
  let st := st.ofC G (X 7) 14 (T.getD 30 0)
  let st := st.ofB G (X 12) 20 (T.getD 31 0)
  st

/-- The third sixteen lines. -/
def round3 (X : Nat → UInt32) (st : State) : State :=
  let st := st.ofA H (X 5) 4 (T.getD 32 0)
  let st := st.ofD H (X 8) 11 (T.getD 33 0)
  let st := st.ofC H (X 11) 16 (T.getD 34 0)
  let st := st.ofB H (X 14) 23 (T.getD 35 0)
  let st := st.ofA H (X 1) 4 (T.getD 36 0)
  let st := st.ofD H (X 4) 11 (T.getD 37 0)
  let st := st.ofC H (X 7) 16 (T.getD 38 0)
  let st := st.ofB H (X 10) 23 (T.getD 39 0)
  let st := st.ofA H (X 13) 4 (T.getD 40 0)
  let st := st.ofD H (X 0) 11 (T.getD 41 0)
  let st := st.ofC H (X 3) 16 (T.getD 42 0)
  let st := st.ofB H (X 6) 23 (T.getD 43 0)
  let st := st.ofA H (X 9) 4 (T.getD 44 0)
  let st := st.ofD H (X 12) 11 (T.getD 45 0)
  let st := st.ofC H (X 15) 16 (T.getD 46 0)
  let st := st.ofB H (X 2) 23 (T.getD 47 0)
  st

/-- The last sixteen lines. -/
def round4 (X : Nat → UInt32) (st : State) : State :=
  let st := st.ofA I (X 0) 6 (T.getD 48 0)
  let st := st.ofD I (X 7) 10 (T.getD 49 0)
  let st := st.ofC I (X 14) 15 (T.getD 50 0)
  let st := st.ofB I (X 5) 21 (T.getD 51 0)
  let st := st.ofA I (X 12) 6 (T.getD 52 0)
  let st := st.ofD I (X 3) 10 (T.getD 53 0)
  let st := st.ofC I (X 10) 15 (T.getD 54 0)
  let st := st.ofB I (X 1) 21 (T.getD 55 0)
  let st := st.ofA I (X 8) 6 (T.getD 56 0)
  let st := st.ofD I (X 15) 10 (T.getD 57 0)
  let st := st.ofC I (X 6) 15 (T.getD 58 0)
  let st := st.ofB I (X 13) 21 (T.getD 59 0)
  let st := st.ofA I (X 4) 6 (T.getD 60 0)
  let st := st.ofD I (X 11) 10 (T.getD 61 0)
  let st := st.ofC I (X 2) 15 (T.getD 62 0)
  let st := st.ofB I (X 9) 21 (T.getD 63 0)
  st

/-- The last four lines of `doTheRounds` add to `state`. -/
def State.add (st st' : State) : State :=
  ⟨st.a + st'.a, st.b + st'.b, st.c + st'.c, st.d + st'.d⟩

def doTheRounds (X : Nat → UInt32) (state : State) : State :=
  state.add (round4 X (round3 X (round2 X (round1 X state))))

/-- `newLen448` of `createPaddedCopyWithLength`. -/
def newLen448 (len : UInt32) : UInt32 :=
  let n := len + 64 - len % 64 - 8
  if n ≤ len then n + 64 else n

/-- The eight bytes that `createPaddedCopyWithLength` appends. -/
def bitCount (len : UInt32) : List UInt8 :=
  let low := len <<< 3
  let high := len >>> 29
  [low &&& 0xff, (low >>> 8) &&& 0xff, (low >>> 8 >>> 8) &&& 0xff, (low >>> 8 >>> 8 >>> 8) &&& 0xff,
   high &&& 0xff, (high >>> 8) &&& 0xff, (high >>> 8 >>> 8) &&& 0xff,
   (high >>> 8 >>> 8 >>> 8) &&& 0xff].map UInt32.toUInt8

/-- `createPaddedCopyWithLength`, with the memory at `b`.  The length is counted in 32 bits; `none`
where the copy would not fit into what is allocated. -/
def createPaddedCopyWithLength (b : List UInt8) (len : UInt32) : Option (List UInt8) :=
  let q := newLen448 len
  if len < q ∧ q < q + 8 then
    some (b.take len.toNat ++ [0x80] ++ List.replicate (q.toNat - (len.toNat + 1)) 0x00 ++ bitCount len)
  else none

/-- A word of `workBuff`: the bytes at `input + k`, the last one first. -/
def word (input : List UInt8) (i j : Nat) : UInt32 :=
  let byte := fun k => (input.getD k 0).toUInt32
  ((((byte (i + 4 * j + 3) <<< 8) ||| byte (i + 4 * j + 2)) <<< 8 ||| byte (i + 4 * j + 1)) <<< 8) |||
    byte (i + 4 * j)

/-- The loop of `calculateDigestFromBuffer`, whose index is of 32 bits; `none` where it reads outside of
the copy. -/
def digestLoop (input : List UInt8) : Nat → UInt32 → State → Option State
  | 0, _, _ => none
  | fuel + 1, i, state =>
      if input.length.toUInt32 < i + 64 then some state
      else if input.length < i.toNat + 64 then none
      else digestLoop input fuel (i + 64) (doTheRounds (word input i.toNat) state)

def initialState : State := ⟨0x67452301, 0xEFCDAB89, 0x98BADCFE, 0x10325476⟩

/-- The bytes of a word of `state`. -/
def sumBytes (k : UInt32) : List UInt8 :=
  [k &&& 0xff, (k >>> 8) &&& 0xff, (k >>> 8 >>> 8) &&& 0xff, (k >>> 8 >>> 8 >>> 8) &&& 0xff].map
    UInt32.toUInt8

/-- `calculateDigestFromBuffer`. -/
def calculateDigestFromBuffer (b : List UInt8) (len : UInt32) : Option (List UInt8) :=
  (createPaddedCopyWithLength b len).bind fun input =>
    (digestLoop input (input.length / 64 + 1) 0 initialState).map fun state =>
      sumBytes state.a ++ sumBytes state.b ++ sumBytes state.c ++ sumBytes state.d

/-- A digit of `hex`. -/
def hex (n : UInt8) : Char := "0123456789abcdef".toList.getD n.toNat '0'

/-- `bytesToHex`. -/
def bytesToHex (b : List UInt8) : List Char :=
  b.flatMap fun x : UInt8 => [hex ((x >>> 4) &&& 0x0f), hex (x &&& 0x0f)]

/-- `pool_md5_hash`: the digits before the terminator. -/
def poolMd5Hash (buff : List UInt8) : Option (List Char) :=
  (calculateDigestFromBuffer buff buff.length.toUInt32).map bytesToHex

/-! ## One rule for a step -/

/-- A step gives one variable its new value and passes the others on. -/
def State.turn (f : UInt32 → UInt32 → UInt32 → UInt32) (x s ac : UInt32) (st : State) : State :=
  ⟨st.d, update f st.a st.b st.c st.d x s ac, st.b, st.c⟩

/-- What a step takes: the function of its round, the word, the shift and the constant. -/
structure Row where
  f : UInt32 → UInt32 → UInt32 → UInt32
  word : Nat
  shift : UInt32
  constant : UInt32

/-- The table of the 64 steps. -/
def row (i : Nat) : Row :=
  match i / 16 with
  | 0 => ⟨F, i % 16, [7, 12, 17, 22].getD (i % 4) 0, T.getD i 0⟩
  | 1 => ⟨G, (5 * i + 1) % 16, [5, 9, 14, 20].getD (i % 4) 0, T.getD i 0⟩
  | 2 => ⟨H, (3 * i + 5) % 16, [4, 11, 16, 23].getD (i % 4) 0, T.getD i 0⟩
  | _ => ⟨I, 7 * i % 16, [6, 10, 15, 21].getD (i % 4) 0, T.getD i 0⟩

/-- Step `i` of the digest. -/
def State.step (X : Nat → UInt32) (st : State) (i : Nat) : State :=
  st.turn (row i).f (X (row i).word) (row i).shift (row i).constant

/-- After four steps each variable has its place again. -/
theorem State.four_turns (f : UInt32 → UInt32 → UInt32 → UInt32) (st : State)
    (x₀ s₀ t₀ x₁ s₁ t₁ x₂ s₂ t₂ x₃ s₃ t₃ : UInt32) :
    ((((st.ofA f x₀ s₀ t₀).ofD f x₁ s₁ t₁).ofC f x₂ s₂ t₂).ofB f x₃ s₃ t₃) =
      (((st.turn f x₀ s₀ t₀).turn f x₁ s₁ t₁).turn f x₂ s₂ t₂).turn f x₃ s₃ t₃ := rfl

theorem round1_eq (X : Nat → UInt32) (st : State) :
    round1 X st = (List.range' 0 16).foldl (State.step X) st := by
  simp only [round1, State.four_turns]
  rfl

theorem round2_eq (X : Nat → UInt32) (st : State) :
    round2 X st = (List.range' 16 16).foldl (State.step X) st := by
  simp only [round2, State.four_turns]
  rfl

theorem round3_eq (X : Nat → UInt32) (st : State) :
    round3 X st = (List.range' 32 16).foldl (State.step X) st := by
  simp only [round3, State.four_turns]
  rfl

theorem round4_eq (X : Nat → UInt32) (st : State) :
    round4 X st = (List.range' 48 16).foldl (State.step X) st := by
  simp only [round4, State.four_turns]
  rfl

theorem doTheRounds_eq (X : Nat → UInt32) (st : State) :
    doTheRounds X st = st.add ((List.range 64).foldl (State.step X) st) := by
  have hrange : List.range 64 =
      List.range' 0 16 ++ List.range' 16 16 ++ List.range' 32 16 ++ List.range' 48 16 := rfl
  rw [doTheRounds, round1_eq, round2_eq, round3_eq, round4_eq, hrange]
  simp only [List.foldl_append]

/-! ## The digest of a message -/

/-- The bytes of a number, the least significant first. -/
def littleEndian : Nat → Nat → List UInt8
  | 0, _ => []
  | k + 1, n => UInt8.ofNat n :: littleEndian k (n / 256)

/-- A message, a one bit, the fewest zeros that leave room for the count, and the count of its bits. -/
def pad (msg : List UInt8) : List UInt8 :=
  msg ++ [0x80] ++ List.replicate ((119 - msg.length % 64) % 64) 0x00 ++
    littleEndian 8 (8 * msg.length)

/-- What the blocks of a padded message make of the state. -/
def compress (input : List UInt8) (state : State) (k : Nat) : State :=
  state.add ((List.range 64).foldl (State.step (word input (64 * k))) state)

/-- The digest: the blocks of the padded message, one after the other. -/
def digest (msg : List UInt8) : List UInt8 :=
  let state := (List.range ((pad msg).length / 64)).foldl (compress (pad msg)) initialState
  sumBytes state.a ++ sumBytes state.b ++ sumBytes state.c ++ sumBytes state.d

@[simp] theorem length_littleEndian (k n : Nat) : (littleEndian k n).length = k := by
  induction k generalizing n with
  | zero => rfl
  | succ k ih => simp [littleEndian, ih]

theorem length_pad (msg : List UInt8) : (pad msg).length = 64 * ((msg.length + 8) / 64 + 1) := by
  simp only [pad, List.length_append, List.length_replicate, length_littleEndian, List.length_cons,
    List.length_nil]
  omega

/-! ## What the source computes -/

theorem toNat_64 : (64 : UInt32).toNat = 64 := rfl

theorem toNat_newLen448 {len : UInt32} (h : len.toNat < 2 ^ 32 - 64) :
    (newLen448 len).toNat = len.toNat + 1 + (119 - len.toNat % 64) % 64 := by
  have hsum : (len + 64 - len % 64 - 8).toNat = 64 * (len.toNat / 64) + 56 := by
    simp only [UInt32.toNat_sub, UInt32.toNat_add, UInt32.toNat_mod, toNat_64,
      show (8 : UInt32).toNat = 8 from rfl]
    omega
  unfold newLen448
  simp only [UInt32.le_iff_toNat_le, hsum]
  split
  · rw [UInt32.toNat_add, hsum, toNat_64]
    omega
  · rw [hsum]
    omega

theorem toUInt8_and (x : UInt32) : (x &&& 0xff).toUInt8 = UInt8.ofNat x.toNat := by
  refine UInt8.toNat_inj.1 ?_
  rw [UInt32.toNat_toUInt8, UInt32.toNat_and, UInt8.toNat_ofNat', UInt32.toNat_ofNat,
    show 255 % 2 ^ 32 = 2 ^ 8 - 1 from rfl, Nat.and_two_pow_sub_one_eq_mod, Nat.mod_mod]

theorem bitCount_eq (len : UInt32) : bitCount len = littleEndian 8 (8 * len.toNat) := by
  have hlt := len.toNat_lt
  have hbyte : ∀ {n m : Nat}, n % 256 = m % 256 → UInt8.ofNat n = UInt8.ofNat m := fun h =>
    UInt8.toNat_inj.1 (by rwa [UInt8.toNat_ofNat', UInt8.toNat_ofNat'])
  simp only [bitCount, List.map_cons, List.map_nil, toUInt8_and, littleEndian, UInt32.toNat_shiftLeft,
    UInt32.toNat_shiftRight, UInt32.toNat_ofNat, Nat.reducePow, Nat.reduceMod, List.cons.injEq,
    and_true]
  refine ⟨hbyte ?_, hbyte ?_, hbyte ?_, hbyte ?_, hbyte ?_, hbyte ?_, hbyte ?_, hbyte ?_⟩ <;> omega

/-- Short of the last block of a length of 32 bits the copy is the padded message. -/
theorem createPaddedCopyWithLength_eq {b : List UInt8} {len : UInt32} (hlen : len.toNat ≤ b.length)
    (h : len.toNat < 2 ^ 32 - 72) :
    createPaddedCopyWithLength b len = some (pad (b.take len.toNat)) := by
  have hq : (newLen448 len).toNat = len.toNat + 1 + (119 - len.toNat % 64) % 64 := toNat_newLen448 (by omega)
  have hfits : len < newLen448 len ∧ newLen448 len < newLen448 len + 8 := by
    simp only [UInt32.lt_iff_toNat_lt, UInt32.toNat_add, show (8 : UInt32).toNat = 8 from rfl, hq]
    omega
  have hzeros : (newLen448 len).toNat - (len.toNat + 1) = (119 - len.toNat % 64) % 64 := by omega
  simp only [createPaddedCopyWithLength, hfits, and_self, if_true, hzeros, bitCount_eq, pad,
    List.length_take_of_le hlen]

theorem createPaddedCopyWithLength_eq_none {len : UInt32} (b : List UInt8)
    (h : 2 ^ 32 - 72 ≤ len.toNat) : createPaddedCopyWithLength b len = none := by
  have hlt := len.toNat_lt
  have hover : ¬ (len < newLen448 len ∧ newLen448 len < newLen448 len + 8) := by
    simp only [UInt32.lt_iff_toNat_lt, UInt32.toNat_add, show (8 : UInt32).toNat = 8 from rfl]
    obtain hlow | hhigh := Nat.lt_or_ge len.toNat (2 ^ 32 - 64)
    · rw [toNat_newLen448 hlow]
      omega
    · have hsum : (len + 64 - len % 64 - 8).toNat = 2 ^ 32 - 8 := by
        simp only [UInt32.toNat_sub, UInt32.toNat_add, UInt32.toNat_mod, toNat_64,
          show (8 : UInt32).toNat = 8 from rfl]
        omega
      simp only [newLen448, UInt32.le_iff_toNat_le, hsum]
      split
      · rw [UInt32.toNat_add, hsum, toNat_64]
        omega
      · rw [hsum]
        omega
  simp only [createPaddedCopyWithLength, hover, if_false]

/-- The loop from block `k` on, by the number of blocks that are left. -/
theorem digestLoop_eq {input : List UInt8} {blocks : Nat} (hinput : input.length = 64 * blocks)
    (hlen : input.length < 2 ^ 32 - 64) :
    ∀ (left k : Nat) (state : State), k + left = blocks →
      digestLoop input (left + 1) (64 * k).toUInt32 state =
        some ((List.range' k left).foldl (compress input) state) := by
  have hl : input.length.toUInt32.toNat = input.length := by
    rw [Nat.toUInt32, UInt32.toNat_ofNat']
    omega
  intro left
  induction left with
  | zero =>
    intro k state hk
    have hend : input.length.toUInt32 < (64 * k).toUInt32 + 64 := by
      rw [UInt32.lt_iff_toNat_lt, hl, UInt32.toNat_add, Nat.toUInt32, UInt32.toNat_ofNat', toNat_64]
      omega
    simp only [digestLoop, hend, if_true, List.range'_zero, List.foldl_nil]
  | succ left ih =>
    intro k state hk
    have hi : (64 * k).toUInt32.toNat = 64 * k := by
      rw [Nat.toUInt32, UInt32.toNat_ofNat']
      omega
    have hnext : (64 * k).toUInt32 + 64 = (64 * (k + 1)).toUInt32 := by
      refine UInt32.toNat_inj.1 ?_
      rw [UInt32.toNat_add, hi, Nat.toUInt32, UInt32.toNat_ofNat', toNat_64]
      omega
    have hmore : ¬ input.length.toUInt32 < (64 * k).toUInt32 + 64 := by
      rw [UInt32.lt_iff_toNat_lt, hl, UInt32.toNat_add, hi, toNat_64]
      omega
    rw [digestLoop, if_neg hmore, hi, if_neg (by omega), hnext, ih (k + 1) _ (by omega),
      List.range'_succ, List.foldl_cons, compress, doTheRounds_eq]

/-- In the last block the index of the loop comes round to zero. -/
theorem digestLoop_eq_none {input : List UInt8} (hlen : input.length = 2 ^ 32 - 64) :
    ∀ (fuel k : Nat) (state : State), 64 * k ≤ input.length →
      digestLoop input fuel (64 * k).toUInt32 state = none := by
  intro fuel
  induction fuel with
  | zero => exact fun _ _ _ => rfl
  | succ fuel ih =>
    intro k state hk
    have hl : input.length.toUInt32.toNat = input.length := by
      rw [Nat.toUInt32, UInt32.toNat_ofNat']
      omega
    have hi : (64 * k).toUInt32.toNat = 64 * k := by
      rw [Nat.toUInt32, UInt32.toNat_ofNat']
      omega
    have hmore : ¬ input.length.toUInt32 < (64 * k).toUInt32 + 64 := by
      rw [UInt32.lt_iff_toNat_lt, hl, UInt32.toNat_add, hi, toNat_64]
      omega
    rw [digestLoop, if_neg hmore, hi]
    split
    · rfl
    · have hnext : (64 * k).toUInt32 + 64 = (64 * (k + 1)).toUInt32 := by
        refine UInt32.toNat_inj.1 ?_
        rw [UInt32.toNat_add, hi, Nat.toUInt32, UInt32.toNat_ofNat', toNat_64]
        omega
      rw [hnext]
      exact ih (k + 1) _ (by omega)

/-- **Main result.** `pool_md5_hash` prints the digest of what a length of 32 bits leaves of the buffer,
unless that is so long that the padding reaches the last block such a length can count. -/
theorem poolMd5Hash_eq (buff : List UInt8) :
    poolMd5Hash buff =
      if buff.length % 2 ^ 32 < 2 ^ 32 - 136 then
        some (bytesToHex (digest (buff.take (buff.length % 2 ^ 32))))
      else none := by
  have hlen : buff.length.toUInt32.toNat = buff.length % 2 ^ 32 := by
    rw [Nat.toUInt32, UInt32.toNat_ofNat']
  have hle : buff.length % 2 ^ 32 ≤ buff.length := Nat.mod_le ..
  have hstart : ∀ input state, digestLoop input (input.length / 64 + 1) 0 state =
      digestLoop input (input.length / 64 + 1) (64 * 0).toUInt32 state := fun _ _ => rfl
  unfold poolMd5Hash calculateDigestFromBuffer
  by_cases hpad : buff.length % 2 ^ 32 < 2 ^ 32 - 72
  · have hcopy : createPaddedCopyWithLength buff buff.length.toUInt32 =
        some (pad (buff.take buff.length.toUInt32.toNat)) :=
      createPaddedCopyWithLength_eq (by omega) (by omega)
    rw [hlen] at hcopy
    generalize hmsg : buff.take (buff.length % 2 ^ 32) = msg at hcopy ⊢
    have hmsglen : msg.length = buff.length % 2 ^ 32 := by
      rw [← hmsg, List.length_take_of_le hle]
    have hblocks := length_pad msg
    rw [hcopy, Option.bind_some, hstart]
    split
    · rename_i h
      rw [@digestLoop_eq (pad msg) ((pad msg).length / 64) (by omega) (by omega) _ 0 _ (by omega),
        ← List.range_eq_range']
      rfl
    · rename_i h
      rw [digestLoop_eq_none (by omega) _ 0 _ (by omega)]
      rfl
  · rw [createPaddedCopyWithLength_eq_none buff (by omega), if_neg (by omega)]
    rfl

example : poolMd5Hash [0x61, 0x62, 0x63] = some "900150983cd24fb0d6963f7d28e17f72".toList := by
  decide +kernel

/-- What is printed are lower case digits. -/
theorem mem_bytesToHex {b : List UInt8} {c : Char} (h : c ∈ bytesToHex b) :
    c ∈ "0123456789abcdef".toList := by
  have hhex : ∀ n : UInt8, n &&& 0x0f = n → hex n ∈ "0123456789abcdef".toList := by
    intro n hn
    have hlt : n.toNat < 16 := by
      rw [← hn, UInt8.toNat_and]
      exact Nat.lt_of_le_of_lt Nat.and_le_right (by decide)
    rw [hex, List.getD_eq_getElem _ _ (by simpa using hlt)]
    exact List.getElem_mem _
  obtain ⟨x, -, hc⟩ := List.mem_flatMap.1 h
  simp only [List.mem_cons, List.not_mem_nil, or_false] at hc
  obtain rfl | rfl := hc
  · exact hhex _ (by rw [UInt8.and_assoc, UInt8.and_self])
  · exact hhex _ (by rw [UInt8.and_assoc, UInt8.and_self])

theorem length_bytesToHex (b : List UInt8) : (bytesToHex b).length = 2 * b.length := by
  induction b with
  | nil => rfl
  | cons x b ih =>
    rw [bytesToHex, List.flatMap_cons, List.length_append, ← bytesToHex, ih]
    simp only [List.length_cons, List.length_nil]
    omega

theorem length_digest (msg : List UInt8) : (digest msg).length = 16 := rfl

end PgPool.Md5
