import Mathlib.Logic.Relation

/-!
# Walking a tree

Trees given by a function that lists the sub-nodes of a node.  `Within sub a b` says that `b` is
met on some way down from `a`.  A recursive search that looks at a node and then at its sub-nodes
finds exactly what lies within (`any_eq_true_iff`), and a walk that knows fewer sub-nodes meets
less (`Within.mono`).
-/

namespace Walk

variable {α : Type} {sub sub' : α → List α}

/-- `b` is `a` or lies below it along `sub`. -/
def Within (sub : α → List α) : α → α → Prop :=
  Relation.ReflTransGen fun a b => b ∈ sub a

theorem Within.self (a : α) : Within sub a a :=
  Relation.ReflTransGen.refl

theorem Within.below {a b c : α} (hb : b ∈ sub a) (hc : Within sub b c) : Within sub a c :=
  Relation.ReflTransGen.head hb hc

/-- A walk that visits fewer sub-nodes meets fewer nodes. -/
theorem Within.mono (hsub : ∀ a, sub a ⊆ sub' a) {a b : α} (h : Within sub a b) :
    Within sub' a b :=
  Relation.ReflTransGen.mono (fun x _ hy => hsub x hy) _ _ h

/-- A recursive search finds a node with the property exactly if one lies within, provided that
sub-nodes get smaller in some measure. -/
theorem any_eq_true_iff {p find : α → Bool} (size : α → Nat)
    (hsize : ∀ a, ∀ b ∈ sub a, size b < size a)
    (hfind : ∀ a, find a = (p a || (sub a).any find)) (a : α) :
    find a = true ↔ ∃ b, Within sub a b ∧ p b = true := by
  constructor
  · -- down the tree: the measure decides how often the search may descend
    induction hn : size a using Nat.strongRecOn generalizing a with
    | ind n ih =>
      intro h
      rw [hfind, Bool.or_eq_true, List.any_eq_true] at h
      rcases h with h | ⟨b, hb, h⟩
      · exact ⟨a, Within.self a, h⟩
      · obtain ⟨c, hc, hp⟩ := ih (size b) (hn ▸ hsize a b hb) b rfl h
        exact ⟨c, Within.below hb hc, hp⟩
  · intro ⟨b, hb, hp⟩
    induction hb using Relation.ReflTransGen.head_induction_on with
    | refl => rw [hfind, hp, Bool.true_or]
    | head hcd _ ih =>
      rw [hfind, Bool.or_eq_true, List.any_eq_true]
      exact Or.inr ⟨_, hcd, ih⟩

end Walk
