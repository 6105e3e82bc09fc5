import Mathlib.Data.List.Count

/-!
# Strict majorities

More than half of a list are the same.
-/

namespace PgPool

variable {α : Type} [DecidableEq α] {l : List α} {a b : α}

/-- More than half of the list are `a`. -/
def IsMajority (l : List α) (a : α) : Prop := l.length < 2 * l.count a

instance : Decidable (IsMajority l a) := inferInstanceAs (Decidable (_ < _))

theorem count_add_count_le (h : a ≠ b) : l.count a + l.count b ≤ l.length := by
  induction l with
  | nil => simp
  | cons c l ih =>
    rw [List.count_cons, List.count_cons, List.length_cons]
    by_cases hc : c = a
    · simp only [hc, beq_self_eq_true, if_true, beq_iff_eq, if_neg h]
      omega
    · simp only [beq_iff_eq, if_neg hc]
      split <;> omega

namespace IsMajority

theorem eq (h : IsMajority l a) (h' : IsMajority l b) : a = b := by
  by_contra hne
  have := @count_add_count_le α _ l a b hne
  unfold IsMajority at h h'
  omega

theorem mem (h : IsMajority l a) : a ∈ l := by
  unfold IsMajority at h
  exact List.count_pos_iff.mp (by omega)

/-- What is as frequent as a majority is it. -/
theorem eq_of_count_le (h : IsMajority l a) (hle : l.count a ≤ l.count b) : a = b := by
  refine h.eq ?_
  unfold IsMajority at h ⊢
  omega

theorem of_forall (h : ∀ b ∈ l, b = a) (hmem : a ∈ l) : IsMajority l a := by
  have hcount : l.count a = l.length := List.count_eq_length.mpr fun b hb => (h b hb).symm
  have := List.length_pos_of_mem hmem
  unfold IsMajority
  omega

end IsMajority

end PgPool
