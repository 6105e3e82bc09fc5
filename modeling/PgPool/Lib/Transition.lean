import Mathlib.Logic.Basic

/-!
# Runs of a transition function

A system is a partial step function on states and events.  `Run step P s t` says that `t` is reached
from `s` by steps that all meet `P`; a property that every such step preserves holds all along.
-/

namespace Transition

variable {σ ε : Type} {step : σ → ε → Option σ} {P Q : σ → ε → Prop} {s t u : σ}

/-- The runs whose steps all meet a condition on the state before the step and the event. -/
inductive Run (step : σ → ε → Option σ) (P : σ → ε → Prop) (s : σ) : σ → Prop
  | refl : Run step P s s
  | step {t u : σ} (run : Run step P s t) (e : ε) (ok : P t e) (next : step t e = some u) :
      Run step P s u

/-- Any step at all. -/
abbrev Any : σ → ε → Prop := fun _ _ => True

theorem Run.invariant {I : σ → Prop} (h : Run step P s t)
    (preserved : ∀ s e t, I s → P s e → step s e = some t → I t) (init : I s) : I t := by
  induction h with
  | refl => exact init
  | step _ e ok next ih => exact preserved _ e _ ih ok next

theorem Run.trans (h : Run step P s t) (h' : Run step P t u) : Run step P s u := by
  induction h' with
  | refl => exact h
  | step _ e ok next ih => exact .step ih e ok next

theorem Run.mono (h : Run step P s t) (hPQ : ∀ s e, P s e → Q s e) : Run step Q s t := by
  induction h with
  | refl => exact .refl
  | step _ e ok next ih => exact .step ih e (hPQ _ _ ok) next

/-- Take the steps of a list of events. -/
def runAll (step : σ → ε → Option σ) : List ε → σ → Option σ
  | [], s => some s
  | e :: es, s =>
      match step s e with
      | none => none
      | some t => runAll step es t

theorem runAll_append {es es' : List ε} (h : runAll step es s = some t) :
    runAll step (es ++ es') s = runAll step es' t := by
  induction es generalizing s with
  | nil =>
    cases h
    rfl
  | cons e es ih =>
    cases hs : step s e with
    | none => simp [runAll, hs] at h
    | some u =>
      simp only [runAll, hs, List.cons_append] at h ⊢
      exact ih h

/-- The condition holds at every step of a list of events. -/
def Holds (step : σ → ε → Option σ) (P : σ → ε → Prop) : List ε → σ → Prop
  | [], _ => True
  | e :: es, s =>
      P s e ∧
        match step s e with
        | none => True
        | some t => Holds step P es t

instance decidableHolds [∀ s e, Decidable (P s e)] : ∀ es s, Decidable (Holds step P es s)
  | [], _ => isTrue trivial
  | e :: es, s =>
      have : Decidable
          (match step s e with
          | none => True
          | some t => Holds step P es t) :=
        match step s e with
        | none => isTrue trivial
        | some t => decidableHolds es t
      inferInstanceAs (Decidable (P s e ∧ _))

/-- Events that can be taken make a run. -/
theorem Run.of_runAll {es : List ε} (h : runAll step es s = some t) (hP : Holds step P es s) :
    Run step P s t := by
  induction es generalizing s with
  | nil =>
    cases h
    exact .refl
  | cons e es ih =>
    cases hs : step s e with
    | none => simp [runAll, hs] at h
    | some u =>
      simp only [runAll, hs] at h
      simp only [Holds, hs] at hP
      exact (Run.step .refl e hP.1 hs).trans (ih h hP.2)

theorem holds_any (es : List ε) (s : σ) : Holds step Any es s := by
  induction es generalizing s with
  | nil => trivial
  | cons e es ih =>
    refine ⟨trivial, ?_⟩
    cases step s e with
    | none => trivial
    | some t => exact ih t

end Transition
