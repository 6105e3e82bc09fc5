import Mathlib.Data.List.Nodup

/-!
# One element before another

The order of two elements of a list that grows at its end.
-/

variable {α : Type} {l : List α} {a b x : α}

/-- `a` comes before `b` in a list. -/
def List.Before (l : List α) (a b : α) : Prop := [a, b].Sublist l

namespace List

instance [DecidableEq α] (l : List α) (a b : α) : Decidable (l.Before a b) :=
  inferInstanceAs (Decidable ([a, b].Sublist l))

theorem not_before_nil : ¬ ([] : List α).Before a b := by simp [Before]

theorem Before.left_mem (h : l.Before a b) : a ∈ l := h.subset (by simp)

theorem before_concat : (l ++ [x]).Before a b ↔ l.Before a b ∨ a ∈ l ∧ b = x := by
  induction l with
  | nil => simp [Before]
  | cons y l ih =>
    simp only [Before, cons_append, sublist_cons_iff, cons.injEq] at ih ⊢
    constructor
    · intro h
      rcases h with h | ⟨r, ⟨rfl, rfl⟩, h⟩
      · rcases ih.mp h with h | ⟨ha, rfl⟩
        · exact .inl (.inl h)
        · exact .inr ⟨by simp [ha], rfl⟩
      · rw [singleton_sublist, mem_append, mem_singleton] at h
        rcases h with h | rfl
        · exact .inl (.inr ⟨[b], ⟨rfl, rfl⟩, by simpa using h⟩)
        · exact .inr ⟨by simp, rfl⟩
    · intro h
      rcases h with (h | ⟨r, ⟨rfl, rfl⟩, h⟩) | ⟨ha, rfl⟩
      · exact .inl (ih.mpr (.inl h))
      · exact .inr ⟨[b], ⟨rfl, rfl⟩, by simp at h ⊢; exact .inl h⟩
      · rcases mem_cons.mp ha with rfl | ha
        · exact .inr ⟨[b], ⟨rfl, rfl⟩, by simp⟩
        · exact .inl (ih.mpr (.inr ⟨ha, rfl⟩))

theorem Before.concat (h : l.Before a b) : (l ++ [x]).Before a b := before_concat.mpr (.inl h)

theorem before_total (ha : a ∈ l) (hb : b ∈ l) (hne : a ≠ b) : l.Before a b ∨ l.Before b a := by
  induction l with
  | nil => simp at ha
  | cons y l ih =>
    simp only [Before, sublist_cons_iff, cons.injEq] at ih ⊢
    rcases mem_cons.mp ha with rfl | ha'
    · exact .inl (.inr ⟨[b], ⟨rfl, rfl⟩, by simpa [hne.symm] using hb⟩)
    · rcases mem_cons.mp hb with rfl | hb'
      · exact .inr (.inr ⟨[a], ⟨rfl, rfl⟩, by simpa using ha'⟩)
      · exact (ih ha' hb').imp .inl .inl

end List
