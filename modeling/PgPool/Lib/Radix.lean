import Mathlib.Data.Nat.Digits.Lemmas

/-!
# Numbers as texts

The digits of a number to a base, the most significant one first, and the longest run of digits that a
text begins with.
-/

namespace Radix

variable {τ : Type} {base n : Nat}

/-- Zero has a digit as well. -/
def digits (base n : Nat) : List Nat := if n = 0 then [0] else (Nat.digits base n).reverse

/-- What some digits stand for. -/
def value (base : Nat) (ds : List Nat) : Nat := ds.foldl (fun n d => base * n + d) 0

/-- The text of a number. -/
def text (char : Nat → τ) (base n : Nat) : List τ := (digits base n).map char

/-- The digits at the head of a text, and what follows them. -/
def leading (digit : τ → Option Nat) : List τ → List Nat × List τ
  | [] => ([], [])
  | c :: rest =>
    match digit c with
    | none => ([], c :: rest)
    | some d => (d :: (leading digit rest).1, (leading digit rest).2)

theorem digits_ne_nil (base n : Nat) : digits base n ≠ [] := by
  unfold digits
  split
  · exact List.cons_ne_nil _ _
  · next h =>
    intro hnil
    rw [List.reverse_eq_nil_iff, Nat.digits_eq_nil_iff_eq_zero] at hnil
    exact h hnil

theorem lt_of_mem_digits (hbase : 1 < base) : ∀ d ∈ digits base n, d < base := by
  intro d hd
  unfold digits at hd
  split at hd
  · rw [List.mem_singleton] at hd
    omega
  · exact Nat.digits_lt_base hbase (List.mem_reverse.mp hd)

/-- The digits of a number stand for it. -/
theorem value_digits (base n : Nat) : value base (digits base n) = n := by
  unfold value digits
  split
  · next h => rw [h]; rfl
  · have hflip : (fun d n => base * n + d) = fun d n : Nat => d + base * n := by
      funext d n
      exact Nat.add_comm _ _
    have hof := Nat.ofDigits_digits base n
    rw [Nat.ofDigits_eq_foldr] at hof
    rw [List.foldl_reverse, hflip]
    exact hof

/-- A number below `base ^ k` has at most `k` digits. -/
theorem length_digits_le (hbase : 1 < base) {k : Nat} (hk : 0 < k) (h : n < base ^ k) :
    (digits base n).length ≤ k := by
  unfold digits
  split
  · exact hk
  · rw [List.length_reverse]
    exact (Nat.digits_length_le_iff hbase n).mpr h

/-- And another number has more. -/
theorem lt_length_digits (hbase : 1 < base) {k : Nat} (h : base ^ k ≤ n) :
    k < (digits base n).length := by
  have hne : n ≠ 0 := by
    have := Nat.pow_pos (n := k) (Nat.lt_trans Nat.zero_lt_one hbase)
    omega
  unfold digits
  rw [if_neg hne, List.length_reverse]
  exact (Nat.lt_digits_length_iff hbase n).mpr h

/-- The digits of a text are read back, if no digit follows. -/
theorem leading_append {digit : τ → Option Nat} {char : Nat → τ} {ds : List Nat}
    (h : ∀ d ∈ ds, digit (char d) = some d) {rest : List τ} (hrest : ∀ c ∈ rest.head?, digit c = none) :
    leading digit (ds.map char ++ rest) = (ds, rest) := by
  induction ds with
  | nil =>
    cases rest with
    | nil => rfl
    | cons c rest =>
      have hc := hrest c rfl
      simp only [List.map_nil, List.nil_append, leading, hc]
  | cons d ds ih =>
    have hd := h d List.mem_cons_self
    have htail := ih fun d hd => h d (List.mem_cons_of_mem _ hd)
    simp only [List.map_cons, List.cons_append, leading, hd, htail]

/-- A number that has been written is read. -/
theorem leading_text {digit : τ → Option Nat} {char : Nat → τ} (hbase : 1 < base)
    (h : ∀ d < base, digit (char d) = some d) (n : Nat) {rest : List τ}
    (hrest : ∀ c ∈ rest.head?, digit c = none) :
    leading digit (text char base n ++ rest) = (digits base n, rest) :=
  leading_append (fun d hd => h d (lt_of_mem_digits hbase d hd)) hrest

end Radix
