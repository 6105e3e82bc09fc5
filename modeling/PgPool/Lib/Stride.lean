import Mathlib.Algebra.Ring.Nat
import PgPool.Lib.Buffer

/-!
# Pieces at a fixed stride

Pieces are written into a block one after the other, at positions that move on by a fixed stride
whatever the pieces are.  What has been written is the pieces in a row exactly if all of them but the
last are as long as the stride.
-/

namespace Stride

variable {stride p a b j : Nat} {lens : List Nat}

/-- A position that one of the stretches covers. -/
def Covers (stride : Nat) : List Nat → Nat → Nat → Prop
  | [], _, _ => False
  | len :: lens, p, j => (p ≤ j ∧ j < p + len) ∨ Covers stride lens (p + stride) j

theorem Covers.le (h : Covers stride lens p j) : p ≤ j := by
  induction lens generalizing p with
  | nil => exact h.elim
  | cons len lens ih =>
    obtain h | h := h
    · exact h.1
    · exact Nat.le_trans (Nat.le_add_right _ _) (ih h)

/-- Stretches do not cover more than they are long, and less if some of it lies in front. -/
theorem le_of_covers (hpos : ∀ len ∈ lens, 0 < len) (hab : a < b)
    (h : ∀ j, a ≤ j → j < b → Covers stride lens p j) :
    p ≤ a ∧ b ≤ a + lens.sum ∧ (p < a → b < a + lens.sum) := by
  induction lens generalizing p a with
  | nil => exact (h a (Nat.le_refl _) hab).elim
  | cons len lens ih =>
    have hlen := hpos len List.mem_cons_self
    have hp : p ≤ a := (h a (Nat.le_refl _) hab).le
    rw [List.sum_cons]
    by_cases hmore : max a (p + len) < b
    · -- what the first one leaves is covered by the others
      have hrest : ∀ j, max a (p + len) ≤ j → j < b → Covers stride lens (p + stride) j := by
        intro j hj hjb
        refine (h j (by omega) hjb).resolve_left ?_
        omega
      obtain ⟨-, hle, -⟩ := ih (fun len hl => hpos len (List.mem_cons_of_mem _ hl)) hmore hrest
      omega
    · omega

/-- Stretches that cover as many positions as they are long leave no gaps. -/
theorem eq_stride_of_covers (hpos : ∀ len ∈ lens, 0 < len)
    (h : ∀ j, p ≤ j → j < p + lens.sum → Covers stride lens p j) :
    ∀ len ∈ lens.dropLast, len = stride := by
  induction lens generalizing p with
  | nil => simp
  | cons len lens ih =>
    cases lens with
    | nil => simp
    | cons next lens =>
      have htail : ∀ l ∈ next :: lens, 0 < l := fun l hl => hpos l (List.mem_cons_of_mem _ hl)
      have hnext := htail next List.mem_cons_self
      rw [List.sum_cons] at h
      have hrest : ∀ j, p + len ≤ j → j < p + (len + (next :: lens).sum) →
          Covers stride (next :: lens) (p + stride) j := by
        intro j hj hjb
        refine (h j (by omega) hjb).resolve_left ?_
        omega
      have hsum : 0 < (next :: lens).sum := by
        rw [List.sum_cons]
        omega
      obtain ⟨hle, -, hlt⟩ := le_of_covers htail (by omega) hrest
      have heq : len = stride := by omega
      rw [List.dropLast_cons_of_ne_nil (by simp)]
      intro l hl
      obtain rfl | hl := List.mem_cons.mp hl
      · exact heq
      · have hcovers : ∀ j, p + stride ≤ j → j < p + stride + (next :: lens).sum →
            Covers stride (next :: lens) (p + stride) j := by
          intro j hj hjb
          exact hrest j (by omega) (by omega)
        exact ih htail hcovers l hl

end Stride

namespace Buffer

variable {stride p off len : Nat} {b : Buffer} {pieces : List (List UInt8)}

/-- Pieces are copied to positions that are `stride` apart. -/
def writeEvery (stride : Nat) : List (List UInt8) → Nat → Buffer → Buffer
  | [], _, b => b
  | piece :: pieces, p, b => writeEvery stride pieces (p + stride) (b.write p piece)

theorem read_writeEvery_before (h : off + len ≤ p) :
    (b.writeEvery stride pieces p).read off len = b.read off len := by
  induction pieces generalizing p b with
  | nil => rfl
  | cons piece pieces ih =>
    rw [writeEvery, ih (by omega), read_write_before h]

theorem byteAt_writeEvery {j : Nat} (h : ¬ Stride.Covers stride (pieces.map List.length) p j) :
    (b.writeEvery stride pieces p).byteAt j = b.byteAt j := by
  induction pieces generalizing p b with
  | nil => rfl
  | cons piece pieces ih =>
    rw [List.map_cons, Stride.Covers, not_or] at h
    rw [writeEvery, ih h.2]
    simp only [write]
    split
    · rename_i hle
      have hout : piece.length ≤ j - p := by omega
      rw [List.getElem?_eq_none hout]
      rfl
    · rfl

theorem read_writeEvery (h : ∀ piece ∈ pieces.dropLast, piece.length = stride) :
    (b.writeEvery stride pieces p).read p pieces.flatten.length = pieces.flatten := by
  induction pieces generalizing p b with
  | nil => rfl
  | cons piece pieces ih =>
    cases pieces with
    | nil =>
      rw [writeEvery, writeEvery, List.flatten_cons, List.flatten_nil, List.append_nil]
      exact read_write
    | cons next pieces =>
      rw [List.dropLast_cons_of_ne_nil (by simp)] at h
      have hfirst := h piece List.mem_cons_self
      have hrest : ((b.write p piece).writeEvery stride (next :: pieces) (p + stride)).read (p + stride)
          (next :: pieces).flatten.length = (next :: pieces).flatten :=
        ih fun piece hp => h piece (List.mem_cons_of_mem _ hp)
      rw [writeEvery, List.flatten_cons, List.length_append, read_add, read_writeEvery_before (by omega),
        read_write, hfirst, hrest]

/-- Whatever was in the block before. -/
theorem read_writeEvery_iff (hpos : ∀ piece ∈ pieces, piece ≠ []) {size : Nat} :
    (∀ bytes, ((⟨size, bytes⟩ : Buffer).writeEvery stride pieces 0).read 0 pieces.flatten.length =
        pieces.flatten) ↔ ∀ piece ∈ pieces.dropLast, piece.length = stride := by
  constructor
  · intro h
    have hlen : (pieces.map List.length).sum = pieces.flatten.length := List.length_flatten.symm
    have hcovers : ∀ j, 0 ≤ j → j < 0 + (pieces.map List.length).sum →
        Stride.Covers stride (pieces.map List.length) 0 j := by
      intro j _ hj
      by_contra hnot
      have hread := h fun j => (pieces.flatten[j]?).getD 0 + 1
      have hbyte := congrArg (fun bytes => bytes[j]?) hread
      rw [getElem?_read (by omega), Nat.zero_add, byteAt_writeEvery hnot] at hbyte
      have hlt : j < pieces.flatten.length := by omega
      simp [List.getElem?_eq_getElem hlt] at hbyte
    have hlens := Stride.eq_stride_of_covers (by
      intro len hl
      obtain ⟨piece, hp, rfl⟩ := List.mem_map.mp hl
      exact List.length_pos_iff.mpr (hpos piece hp)) hcovers
    intro piece hp
    refine hlens _ ?_
    rw [← List.map_dropLast]
    exact List.mem_map.mpr ⟨piece, hp, rfl⟩
  · intro h bytes
    exact read_writeEvery h

end Buffer
