import Mathlib.Data.List.Induction

/-!
# Loops over a list that may fail

`l.foldlM f s` takes a turn for each element until one fails.  `P done u` says what holds in the
state `u` when the elements `done` have been passed.
-/

namespace Fold

variable {σ α : Type} {f : σ → α → Option σ} {P : List α → σ → Prop} {Q : α → Prop} {l : List α} {s t : σ}

theorem foldlM_concat (l : List α) (x : α) (s : σ) :
    (l ++ [x]).foldlM f s = (l.foldlM f s).bind fun u => f u x := by
  rw [List.foldlM_append]
  simp

/-- An element whose turn it is has not been passed if none occurs twice. -/
theorem not_mem_done {done : List α} {x : α} (hnd : l.Nodup) (hpre : done ++ [x] <+: l) : x ∉ done := by
  obtain ⟨-, -, hne⟩ := List.nodup_append.mp (hnd.sublist hpre.sublist)
  exact fun hx => hne x hx x (List.mem_singleton_self x) rfl

/-- What every turn preserves holds at the end. -/
theorem invariant (init : P [] s)
    (step : ∀ done x u v, done ++ [x] <+: l → P done u → f u x = some v → P (done ++ [x]) v)
    (h : l.foldlM f s = some t) : P l t := by
  induction l using List.reverseRecOn generalizing t with
  | nil =>
    cases h
    exact init
  | append_singleton l x ih =>
    rw [foldlM_concat] at h
    obtain ⟨u, hu, hx⟩ := Option.bind_eq_some_iff.mp h
    have hstep : ∀ done y v w, done ++ [y] <+: l → P done v → f v y = some w → P (done ++ [y]) w :=
      fun done y v w hpre => step done y v w (hpre.trans (List.prefix_append l [x]))
    have hl : P l u := ih hstep hu
    exact step l x u t List.prefix_rfl hl hx

/-- A loop does not fail if no turn does. -/
theorem isSome_iff (init : P [] s)
    (step : ∀ done x u v, done ++ [x] <+: l → P done u → f u x = some v → P (done ++ [x]) v)
    (turn : ∀ done x u, done ++ [x] <+: l → P done u → ((f u x).isSome ↔ Q x)) :
    (l.foldlM f s).isSome ↔ ∀ x ∈ l, Q x := by
  induction l using List.reverseRecOn with
  | nil => exact iff_of_true rfl nofun
  | append_singleton l x ih =>
    have hpre : ∀ done, done <+: l → done <+: l ++ [x] := fun done h => h.trans (List.prefix_append l [x])
    have hstep : ∀ done y u v, done ++ [y] <+: l → P done u → f u y = some v → P (done ++ [y]) v :=
      fun done y u v h => step done y u v (hpre _ h)
    have hl := ih hstep fun done y u h => turn done y u (hpre _ h)
    rw [foldlM_concat, List.forall_mem_append, List.forall_mem_singleton, ← hl]
    cases hfold : l.foldlM f s with
    | none => exact iff_of_false nofun fun h => nomatch h.1
    | some u =>
      rw [Option.bind_some, turn l x u List.prefix_rfl (invariant init hstep hfold)]
      exact (and_iff_right rfl).symm

end Fold
