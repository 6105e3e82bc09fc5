import Mathlib.Data.List.Dedup
import Mathlib.Data.List.Lattice
import Mathlib.Data.List.ReduceOption
import Mathlib.Algebra.BigOperators.Group.List.Basic
import Mathlib.Algebra.Order.Field.Rat

/-!
# Aggregates, and aggregates of aggregates

The aggregates of SQL over values of which some are `NULL`, and which of them can be had from those of the
parts that the values come in.
-/

namespace Aggregates

/-- Values of which some are numbers, exact ones. -/
class Numeric (V : Type) where
  number : V → Option ℚ
  ofNumber : ℚ → V
  number_ofNumber : ∀ q, number (ofNumber q) = some q

open Numeric

instance : Numeric ℚ := ⟨some, id, fun _ => rfl⟩

attribute [simp] number_ofNumber

/-! ## Sum, count and average -/

section Sums

variable {V : Type} [Numeric V]

def numbers (xs : List (Option V)) : List ℚ := xs.filterMap fun x => x.bind number

/-- The sum of numbers, `NULL` where there is none. -/
def total : List ℚ → Option V
  | [] => none
  | q :: qs => some (ofNumber (q :: qs).sum)

def sum (xs : List (Option V)) : Option V := total (numbers xs)

def count (xs : List (Option V)) : Option V := some (ofNumber xs.reduceOption.length)

/-- Division, which is `NULL` where an operand is. -/
def divide (x y : Option V) : Option V := do
  let x ← x.bind number
  let y ← y.bind number
  some (ofNumber (x / y))

def avg (xs : List (Option V)) : Option V := divide (sum xs) (count xs)

theorem total_of_ne_nil {qs : List ℚ} (h : qs ≠ []) : (total qs : Option V) = some (ofNumber qs.sum) := by
  cases qs with
  | nil => exact absurd rfl h
  | cons q qs => rfl

theorem numbers_append (xs ys : List (Option V)) : numbers (xs ++ ys) = numbers xs ++ numbers ys :=
  List.filterMap_append

theorem numbers_perm {xs ys : List (Option V)} (h : xs.Perm ys) : (numbers xs).Perm (numbers ys) := h.filterMap _

theorem total_perm {qs rs : List ℚ} (h : qs.Perm rs) : (total qs : Option V) = total rs := by
  by_cases hq : qs = []
  · subst hq
    rw [h.nil_eq]
  · have hr : rs ≠ [] := fun hr => hq (List.perm_nil.mp (hr ▸ h))
    rw [total_of_ne_nil hq, total_of_ne_nil hr, h.sum_eq]

theorem sum_perm {xs ys : List (Option V)} (h : xs.Perm ys) : sum xs = sum ys := total_perm (numbers_perm h)

theorem count_perm {xs ys : List (Option V)} (h : xs.Perm ys) : count xs = count ys := by
  have hlength := (h.filterMap id).length_eq
  exact congrArg (fun n : Nat => some (ofNumber (n : ℚ))) hlength

theorem avg_perm {xs ys : List (Option V)} (h : xs.Perm ys) : avg xs = avg ys := by
  rw [avg, avg, sum_perm h, count_perm h]

/-- The numbers that a sum of parts adds up, and those of the parts. -/
theorem numbers_map_sum (parts : List (List (Option V))) :
    (numbers (parts.map sum)).sum = (numbers parts.flatten).sum ∧
      (numbers (parts.map sum) = [] ↔ numbers parts.flatten = []) := by
  induction parts with
  | nil => exact ⟨rfl, Iff.rfl⟩
  | cons p parts ih =>
    rw [List.map_cons, List.flatten_cons, numbers_append, List.sum_append, ← ih.1]
    by_cases hp : numbers p = []
    · have hnone : numbers (sum p :: parts.map sum) = numbers (parts.map sum) := by
        rw [numbers, List.filterMap_cons, sum, hp]
        rfl
      rw [hnone, hp, ih.2]
      exact ⟨by simp, by simp⟩
    · have hsome : numbers (sum p :: parts.map sum) = (numbers p).sum :: numbers (parts.map sum) := by
        rw [numbers, List.filterMap_cons, sum, total_of_ne_nil hp, Option.bind_some, number_ofNumber]
        rfl
      rw [hsome]
      exact ⟨List.sum_cons, by simp [hp]⟩

/-- The sum of the sums of the parts. -/
theorem sum_map_sum (parts : List (List (Option V))) : sum (parts.map sum) = sum parts.flatten := by
  obtain ⟨hsum, hnil⟩ := numbers_map_sum parts
  by_cases h : numbers (parts.map sum) = []
  · rw [sum, sum, h, hnil.mp h]
  · rw [sum, sum, total_of_ne_nil h, total_of_ne_nil fun hr => h (hnil.mpr hr), hsum]

theorem numbers_map_count (parts : List (List (Option V))) :
    numbers (parts.map count) = parts.map fun p => (p.reduceOption.length : ℚ) := by
  induction parts with
  | nil => rfl
  | cons p parts ih =>
    rw [List.map_cons, List.map_cons, ← ih, numbers, List.filterMap_cons, count, Option.bind_some,
      number_ofNumber]
    rfl

/-- The sum of the counts of the parts.  Where there is no part it is `NULL`, and the count is not. -/
theorem sum_map_count {parts : List (List (Option V))} (h : parts ≠ []) :
    sum (parts.map count) = count parts.flatten := by
  have hlength : ∀ ps : List (List (Option V)),
      (ps.map fun p => (p.reduceOption.length : ℚ)).sum = (ps.flatten.reduceOption.length : ℚ) := by
    intro ps
    induction ps with
    | nil => rfl
    | cons p ps ih =>
      rw [List.map_cons, List.sum_cons, ih, List.flatten_cons, List.reduceOption_append, List.length_append,
        Nat.cast_add]
  rw [sum, numbers_map_count, total_of_ne_nil (by simpa using h), hlength]
  rfl

/-- The average of the parts, from their sums and their counts. -/
theorem divide_sum_sum (parts : List (List (Option V))) :
    divide (sum (parts.map sum)) (sum (parts.map count)) = avg parts.flatten := by
  by_cases h : parts = []
  · subst h
    rfl
  · rw [sum_map_sum, sum_map_count h, avg]

end Sums

/-! ## The least and the greatest -/

section Extremes

variable {V : Type}

/-- A choice of the value that comes before all others. -/
structure Chooses (choose : List V → Option V) (before : V → V → Prop) : Prop where
  refl : ∀ x, before x x
  trans : ∀ x y z, before x y → before y z → before x z
  antisymm : ∀ x y, before x y → before y x → x = y
  some_iff : ∀ xs x, choose xs = some x ↔ x ∈ xs ∧ ∀ y ∈ xs, before x y
  none_iff : ∀ xs, choose xs = none ↔ xs = []

theorem chooses_min [LinearOrder V] : Chooses (@List.min? V _) (· ≤ ·) where
  refl := le_refl
  trans _ _ _ := le_trans
  antisymm _ _ := le_antisymm
  some_iff _ _ := List.min?_eq_some_iff
  none_iff _ := List.min?_eq_none_iff

theorem chooses_max [LinearOrder V] : Chooses (@List.max? V _) (· ≥ ·) where
  refl := le_refl
  trans _ _ _ hxy hyz := le_trans hyz hxy
  antisymm _ _ hxy hyx := le_antisymm hyx hxy
  some_iff _ _ := List.max?_eq_some_iff
  none_iff _ := List.max?_eq_none_iff

/-- An aggregate that is one of the values. -/
def extreme (choose : List V → Option V) (xs : List (Option V)) : Option V := choose xs.reduceOption

variable {choose : List V → Option V} {before : V → V → Prop}

/-- What is chosen depends on which values there are, and not on how often. -/
theorem extreme_congr (hc : Chooses choose before) {xs ys : List (Option V)}
    (h : ∀ x : V, some x ∈ xs ↔ some x ∈ ys) : extreme choose xs = extreme choose ys := by
  refine Option.ext fun x => ?_
  have hmem : ∀ x, x ∈ xs.reduceOption ↔ x ∈ ys.reduceOption := fun x => by
    rw [List.reduceOption_mem_iff, List.reduceOption_mem_iff, h x]
  rw [extreme, extreme, hc.some_iff, hc.some_iff, hmem x]
  simp only [hmem]

theorem extreme_perm (hc : Chooses choose before) {xs ys : List (Option V)} (h : xs.Perm ys) :
    extreme choose xs = extreme choose ys :=
  extreme_congr hc fun _ => h.mem_iff

theorem extreme_dedup [DecidableEq V] (hc : Chooses choose before) (xs : List (Option V)) :
    extreme choose xs.dedup = extreme choose xs :=
  extreme_congr hc fun _ => List.mem_dedup

/-- What is chosen among the choices of the parts. -/
theorem extreme_map_extreme (hc : Chooses choose before) (parts : List (List (Option V))) :
    extreme choose (parts.map (extreme choose)) = extreme choose parts.flatten := by
  have hchosen : ∀ x, x ∈ (parts.map (extreme choose)).reduceOption ↔
      ∃ p ∈ parts, extreme choose p = some x := fun x => by
    rw [List.reduceOption_mem_iff, List.mem_map]
  have hall : ∀ x, x ∈ parts.flatten.reduceOption ↔ ∃ p ∈ parts, x ∈ p.reduceOption := fun x => by
    rw [List.reduceOption_mem_iff, List.mem_flatten]
    simp only [List.reduceOption_mem_iff]
  -- every value has the choice of its part before it
  have hbefore : ∀ p ∈ parts, ∀ y ∈ p.reduceOption, ∃ x, extreme choose p = some x ∧ before x y := by
    intro p hp y hy
    cases hx : extreme choose p with
    | none => exact absurd ((hc.none_iff _).mp hx) (List.ne_nil_of_mem hy)
    | some x => exact ⟨x, rfl, ((hc.some_iff _ _).mp hx).2 y hy⟩
  refine Option.ext fun x => ?_
  rw [extreme, extreme, hc.some_iff, hc.some_iff, hchosen, hall]
  constructor
  · rintro ⟨⟨p, hp, hx⟩, hleast⟩
    refine ⟨⟨p, hp, ((hc.some_iff _ _).mp hx).1⟩, fun y hy => ?_⟩
    obtain ⟨p', hp', hy'⟩ := (hall y).mp hy
    obtain ⟨z, hz, hzy⟩ := hbefore p' hp' y hy'
    exact hc.trans _ _ _ (hleast z ((hchosen z).mpr ⟨p', hp', hz⟩)) hzy
  · rintro ⟨⟨p, hp, hx⟩, hleast⟩
    have hmem : ∀ {p' : List (Option V)} {z : V}, p' ∈ parts → extreme choose p' = some z →
        z ∈ parts.flatten.reduceOption := fun hp' hz =>
      (hall _).mpr ⟨_, hp', ((hc.some_iff _ _).mp hz).1⟩
    obtain ⟨z, hz, hzx⟩ := hbefore p hp x hx
    have heq : z = x := hc.antisymm _ _ hzx (hleast z (hmem hp hz))
    refine ⟨⟨p, hp, heq ▸ hz⟩, fun y hy => ?_⟩
    obtain ⟨p', hp', hy'⟩ := (hchosen y).mp hy
    exact hleast y (hmem hp' hy')

end Extremes

end Aggregates
