import Mathlib.Data.List.Perm.Basic
import Mathlib.Data.List.Range

/-!
# A supply of numbers

A pass over a structure that hands out one number after the other.  What is followed is the list of the
numbers that stand in the structure, before and after.
-/

/-- `new` is `old` with the numbers from `first` up to `next` put in somewhere. -/
structure Supplied (first next : Nat) (old new : List Nat) : Prop where
  le : first ≤ next
  perm : new.Perm (old ++ List.range' first (next - first))

namespace Supplied

variable {a b c : Nat} {old old' mid new new' : List Nat}

theorem refl : Supplied a a old old where
  le := Nat.le_refl a
  perm := by simp

/-- The next number is put into an empty place. -/
theorem one : Supplied a (a + 1) [] [a] where
  le := Nat.le_succ a
  perm := by simp

private theorem range'_split (hab : a ≤ b) (hbc : b ≤ c) :
    List.range' a (c - a) = List.range' a (b - a) ++ List.range' b (c - b) := by
  have hb : b = a + (b - a) := by omega
  have hlen : c - a = (b - a) + (c - b) := by omega
  rw [hlen, ← List.range'_append_1, ← hb]

/-- Two passes over the same structure. -/
theorem andThen (hfirst : Supplied a b old mid) (hsecond : Supplied b c mid new) :
    Supplied a c old new where
  le := hfirst.le.trans hsecond.le
  perm := by
    rw [range'_split hfirst.le hsecond.le, ← List.append_assoc]
    exact hsecond.perm.trans (hfirst.perm.append_right _)

/-- A pass over two structures. -/
theorem append (hfirst : Supplied a b old new) (hsecond : Supplied b c old' new') :
    Supplied a c (old ++ old') (new ++ new') where
  le := hfirst.le.trans hsecond.le
  perm := by
    rw [range'_split hfirst.le hsecond.le]
    refine (hfirst.perm.append hsecond.perm).trans ?_
    simp only [List.append_assoc]
    exact List.Perm.append_left _ (List.perm_append_comm_assoc _ _ _)

/-- Where there was none, each of the numbers stands once. -/
theorem perm_range (h : Supplied 0 a [] new) : new.Perm (List.range a) := by
  simpa [List.range_eq_range'] using h.perm

end Supplied
