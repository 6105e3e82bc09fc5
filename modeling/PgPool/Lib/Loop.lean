import Mathlib.Order.WellFounded

/-!
# Loops

A loop is a function that says for a state whether one more turn leads to another state or the loop is
left with a result.  `run` takes a number of turns; a loop ends if some number is enough.
-/

namespace Loop

variable {σ ρ : Type} {step : σ → σ ⊕ ρ} {s t u : σ} {r : ρ}

/-- The result, if there is one within so many turns. -/
def run (step : σ → σ ⊕ ρ) : Nat → σ → Option ρ
  | 0, _ => none
  | n + 1, s =>
      match step s with
      | .inl t => run step n t
      | .inr r => some r

/-- The state after so many turns, if the loop is not left before. -/
def turns (step : σ → σ ⊕ ρ) : Nat → σ → Option σ
  | 0, s => some s
  | n + 1, s =>
      match step s with
      | .inl t => turns step n t
      | .inr _ => none

/-- The states at the head of the loop. -/
inductive Reaches (step : σ → σ ⊕ ρ) (s : σ) : σ → Prop
  | refl : Reaches step s s
  | turn {t u : σ} (reaches : Reaches step s t) (next : step t = .inl u) : Reaches step s u

theorem Reaches.head (h : step s = .inl t) (htu : Reaches step t u) : Reaches step s u := by
  induction htu with
  | refl => exact .turn .refl h
  | turn _ next ih => exact .turn ih next

theorem Reaches.trans (hst : Reaches step s t) (htu : Reaches step t u) : Reaches step s u := by
  induction htu with
  | refl => exact hst
  | turn _ next ih => exact .turn ih next

theorem run_turn (h : step s = .inl t) (n : Nat) : run step (n + 1) s = run step n t := by
  simp [run, h]

theorem run_leave (h : step s = .inr r) (n : Nat) : run step (n + 1) s = some r := by
  simp [run, h]

/-- The loop is deterministic. -/
theorem run_of_reaches (h : Reaches step s t) {n : Nat} (hn : run step n s = some r) :
    ∃ m, run step m t = some r := by
  induction h with
  | refl => exact ⟨n, hn⟩
  | turn _ next ih =>
    obtain ⟨m, hm⟩ := ih
    cases m with
    | zero => cases hm
    | succ m => exact ⟨m, by rwa [run_turn next] at hm⟩

/-- A set of states that the loop does not leave. -/
theorem run_eq_none {I : σ → Prop} (hstep : ∀ s, I s → ∃ t, step s = .inl t ∧ I t) (hs : I s) (n : Nat) :
    run step n s = none := by
  induction n generalizing s with
  | zero => rfl
  | succ n ih =>
    obtain ⟨t, hnext, ht⟩ := hstep s hs
    rw [run_turn hnext]
    exact ih ht

/-- A turn that leads nowhere. -/
theorem run_stuck (h : step s = .inl s) (n : Nat) : run step n s = none :=
  run_eq_none (I := (· = s)) (fun _ heq => ⟨s, heq ▸ h, rfl⟩) rfl n

/-- A loop ends whose turns all make a measure smaller. -/
theorem ends_of_measure {α : Type} {lt : α → α → Prop} (hwf : WellFounded lt) (measure : σ → α)
    {I : σ → Prop} {Q : ρ → Prop}
    (hstep : ∀ s, I s →
      (∃ r, step s = .inr r ∧ Q r) ∨ ∃ t, step s = .inl t ∧ I t ∧ lt (measure t) (measure s))
    (hs : I s) : ∃ n r, run step n s = some r ∧ Q r := by
  induction hm : measure s using hwf.induction generalizing s with
  | _ m ih =>
    obtain ⟨r, hleave, hr⟩ | ⟨t, hnext, ht, hlt⟩ := hstep s hs
    · exact ⟨1, r, run_leave hleave 0, hr⟩
    · obtain ⟨n, r, hn, hr⟩ := ih (measure t) (hm ▸ hlt) ht rfl
      exact ⟨n + 1, r, by rwa [run_turn hnext], hr⟩

theorem turns_succ (n : Nat) (s : σ) :
    turns step (n + 1) s = (turns step n s).bind fun t => (step t).getLeft? := by
  induction n generalizing s with
  | zero => cases h : step s <;> simp [turns, h]
  | succ n ih =>
    cases h : step s with
    | inl t =>
      rw [turns, turns, h]
      exact ih t
    | inr r => simp [turns, h]

theorem Reaches.turns (h : Reaches step s t) : ∃ n, turns step n s = some t := by
  induction h with
  | refl => exact ⟨0, rfl⟩
  | turn _ next ih =>
    obtain ⟨n, hn⟩ := ih
    exact ⟨n + 1, by simp [turns_succ, hn, next]⟩

theorem reaches_of_turns {n : Nat} (h : turns step n s = some t) : Reaches step s t := by
  induction n generalizing s with
  | zero =>
    cases h
    exact .refl
  | succ n ih =>
    cases hnext : step s with
    | inl u =>
      rw [Loop.turns, hnext] at h
      exact (ih h).head hnext
    | inr r => simp [Loop.turns, hnext] at h

/-- A loop that is left makes no more turns than it has been given. -/
theorem lt_of_turns {n m : Nat} (hn : run step n s = some r) (hm : turns step m s = some t) : m < n := by
  induction n generalizing s m with
  | zero => cases hn
  | succ n ih =>
    cases m with
    | zero => exact Nat.succ_pos n
    | succ m =>
      cases hnext : step s with
      | inl u =>
        rw [run_turn hnext] at hn
        rw [turns, hnext] at hm
        exact Nat.succ_lt_succ (ih hn hm)
      | inr r => simp [turns, hnext] at hm

/-- What holds at each turn of a loop that is left holds at its head. -/
theorem forall_reaches {p : σ → Bool} {n : Nat} (hn : run step n s = some r)
    (h : ∀ m, m < n → (turns step m s).all p = true) (ht : Reaches step s t) : p t = true := by
  obtain ⟨m, hm⟩ := ht.turns
  have := h m (lt_of_turns hn hm)
  rwa [hm] at this

end Loop
