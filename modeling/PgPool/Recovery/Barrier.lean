import PgPool.Recovery.Children

/-!
# The barrier of online recovery

`InRecovery` keeps the children from accepting and `wait_connection_closed` waits for the counter to
reach zero.  Between its test of `InRecovery` and `connection_count_up` a child is seen by neither.
-/

namespace PgPool.Recovery

open Transition

/-- A frontend has been accepted and is being served. -/
def Stage.serving : Stage → Bool
  | .opened | .counted | .checking | .startup | .session => true
  | _ => false

/-- The test of `InRecovery` is past, and the counter says nothing yet. -/
def Stage.inWindow : Stage → Bool
  | .accepting | .opened => true
  | _ => false

/-- After `wait_connection_closed` no child serves a frontend. -/
def Barred (n : Nat) (s : State) : Prop :=
  s.waiter = .passed → ∀ c, c < n → (s.child c).stage.serving = false

/-- When the counter is found to be zero no child is in the window, and no connection is counted down
twice. -/
def Unraced (n : Nat) (s : State) : Event → Prop
  | .connectionClosed => ∀ c, c < n → (s.child c).stage.inWindow = false
  | e => ExitsOnce s e

theorem Unraced.exitsOnce {n : Nat} {s : State} {e : Event} (h : Unraced n s e) : ExitsOnce s e := by
  cases e with
  | connectionClosed => trivial
  | _ => exact h

/-- What is kept: while the barrier is up only children short of the test are there. -/
structure Kept (n : Nat) (s : State) : Prop where
  counted : Counted n s
  inRecovery : s.waiter ≠ .idle → s.inRecovery = true
  closed : s.waiter = .passed →
    ∀ c, c < n → (s.child c).stage.serving = false ∧ (s.child c).stage.inWindow = false

theorem kept_init (n : Nat) : Kept n init where
  counted := counted_init n
  inRecovery h := absurd rfl h
  closed h := by simp [init] at h

/-- A child does not get past the test of `InRecovery`. -/
theorem Child.step_closed {x y : Child} {e : ChildEvent} {count : Count}
    (hserving : x.stage.serving = false) (hwindow : x.stage.inWindow = false)
    (hstep : x.step true e = some (y, count)) :
    y.stage.serving = false ∧ y.stage.inWindow = false := by
  cases e <;> simp only [Child.step, Option.ite_none_right_eq_some, Option.ite_none_left_eq_some] at hstep
  case childExit =>
    obtain ⟨-, hstep⟩ := hstep
    split at hstep
    · cases hstep
      exact ⟨rfl, rfl⟩
    · cases hstep
      exact ⟨rfl, rfl⟩
  all_goals
    obtain ⟨hstage, hstep⟩ := hstep
    cases hstep
    grind [Stage.serving, Stage.inWindow]

/-- Zero connections are counted only if no child counts one. -/
theorem Counted.counts_eq_false {n : Nat} {s : State} (h : Counted n s) (hzero : s.connCounter = 0) {c : Nat}
    (hc : c < n) : (s.child c).counts = false := by
  have hsum := h.counter.symm.trans hzero
  have hdiff := Finset.sum_eq_zero_iff.1 hsum c (Finset.mem_range.2 hc)
  have hcounted := (h.sound c hc).counted
  cases hcounts : (s.child c).counts with
  | false => rfl
  | true =>
    rw [hcounts, Bool.toNat_true] at hcounted
    omega

/-- A child that serves a frontend has counted it, unless it is in the window. -/
theorem serving_of_counts {x : Child} (hcounts : x.counts = false) (hwindow : x.stage.inWindow = false) :
    x.stage.serving = false := by
  unfold Child.counts at hcounts
  cases hstage : x.stage <;> simp_all [Stage.serving, Stage.inWindow]

theorem Kept.step {n : Nat} {s t : State} (h : Kept n s) {e : Event} (hok : Unraced n s e)
    (hstep : step n s e = some t) : Kept n t := by
  have hcounted := h.counted.step hok.exitsOnce hstep
  cases stepped_of_step hstep with
  | @child c e x count hc hx =>
    refine ⟨hcounted, h.inRecovery, fun hpassed d hd => ?_⟩
    change s.waiter = .passed at hpassed
    by_cases hdc : d = c
    · subst hdc
      obtain ⟨hserving, hwindow⟩ := h.closed hpassed d hd
      have hblocked : s.inRecovery = true := by
        apply h.inRecovery
        simp [hpassed]
      rw [hblocked] at hx
      simpa using Child.step_closed hserving hwindow hx
    · simpa [hdc] using h.closed hpassed d hd
  | startRecovery => exact ⟨hcounted, fun _ => rfl, nofun⟩
  | connectionClosed hwaiting hzero =>
    refine ⟨hcounted, fun _ => h.inRecovery (by simp [hwaiting]), fun _ c hc => ?_⟩
    have hwindow := hok c hc
    exact ⟨serving_of_counts (h.counted.counts_eq_false hzero hc) hwindow, hwindow⟩
  | timeout hwaiting => exact ⟨hcounted, fun _ => h.inRecovery (by simp [hwaiting]), nofun⟩
  | finishRecovery => exact ⟨hcounted, fun hne => absurd rfl hne, nofun⟩

theorem kept_of_run {n : Nat} {s : State} (h : Run (step n) (Unraced n) init s) : Kept n s :=
  h.invariant (fun _ _ _ hs hok hstep => hs.step hok hstep) (kept_init n)

/-! ## The window -/

/-- A child that has passed the test goes on to a session, whatever `InRecovery` has become. -/
def throughWindow (c : Nat) : List Event :=
  [.child c .countUp, .child c .setAccepted, .child c .poolOpen, .child c .serve]

/-- The events that take a child through its window, and the session that it then serves. -/
theorem serves_of_inWindow {n : Nat} {s : State} {c : Nat} (hc : c < n) (hpassed : s.waiter = .passed)
    (hwindow : (s.child c).stage.inWindow = true) :
    ∃ t, Run (step n) (fun s e => ExitsOnce s e) s t ∧ t.waiter = .passed ∧ (t.child c).stage = .session := by
  have hopened : ∀ s : State, s.waiter = .passed → (s.child c).stage = .opened →
      ∃ t, Run (step n) (fun s e => ExitsOnce s e) s t ∧ t.waiter = .passed ∧
        (t.child c).stage = .session := by
    intro s hpassed hstage
    have hrun : ∃ t, runAll (step n) (throughWindow c) s = some t ∧ t.waiter = .passed ∧
        (t.child c).stage = .session := by
      simp [throughWindow, runAll, step, Child.step, hc, hstage, hpassed]
    obtain ⟨t, ht, hdone⟩ := hrun
    refine ⟨t, Run.of_runAll ht ?_, hdone⟩
    simp [throughWindow, Holds, step, Child.step, ExitsOnce, Child.ExitsOnce, hc, hstage]
  cases hstage : (s.child c).stage with
  | accepting =>
    have haccept : ∃ u, step n s (.child c .accept) = some u ∧ u.waiter = .passed ∧
        (u.child c).stage = .opened := by
      simp [step, Child.step, hc, hstage, hpassed]
    obtain ⟨u, hu, hwaiter, hstage⟩ := haccept
    obtain ⟨t, ht, hdone⟩ := hopened u hwaiter hstage
    exact ⟨t, (Run.step .refl _ trivial hu).trans ht, hdone⟩
  | opened => exact hopened s hpassed hstage
  | _ => simp [hstage, Stage.inWindow] at hwindow

/-! ## The barrier -/

theorem barred_of_unraced {n : Nat} {s : State} (h : Run (step n) (Unraced n) init s) : Barred n s :=
  fun hpassed c hc => ((kept_of_run h).closed hpassed c hc).1

instance decidableExitsOnce (x : Child) : ∀ e, Decidable (x.ExitsOnce e)
  | .childExit => inferInstanceAs (Decidable (x.accepted = true → x.downs < x.ups))
  | .enter | .selected | .notSelected | .test | .accept | .acceptFails | .retryAccept | .countUp
  | .setAccepted | .socketFails | .poolOpen | .again | .drop | .retryStartup | .abandon | .serve | .countDown
  | .finish | .clear | .gone | .fork => isTrue trivial

instance decidableUnraced (n : Nat) (s : State) : ∀ e, Decidable (Unraced n s e)
  | .child c e => inferInstanceAs (Decidable ((s.child c).ExitsOnce e))
  | .connectionClosed => inferInstanceAs (Decidable (∀ c, c < n → (s.child c).stage.inWindow = false))
  | .startRecovery | .timeout | .finishRecovery => isTrue trivial

/-- A child accepts a frontend and takes it to a session. -/
def connect (c : Nat) : List Event :=
  [.child c .enter, .child c .selected, .child c .test, .child c .accept] ++ throughWindow c

/-- One child has served a frontend to its end; the other waits for the recovery to finish. -/
def quietRecovery : List Event :=
  connect 0 ++ [.startRecovery, .child 0 .finish, .child 0 .clear, .child 0 .countDown,
    .child 1 .enter, .child 1 .selected, .connectionClosed]

theorem barred_quietRecovery : ∃ s, runAll (step 2) quietRecovery init = some s ∧ s.waiter = .passed ∧
    Barred 2 s := by
  have hend : (runAll (step 2) quietRecovery init).any (fun s => s.waiter == .passed) = true := by
    decide +kernel
  obtain ⟨s, hs, hpassed⟩ := (Option.any_eq_true _ _).1 hend
  exact ⟨s, hs, by simpa using hpassed, barred_of_unraced (.of_runAll hs (by decide +kernel))⟩

/-- A child has tested `InRecovery` and has not accepted yet when recovery starts. -/
def racedRecovery : List Event :=
  [.child 0 .enter, .child 0 .selected, .child 0 .test, .startRecovery, .connectionClosed,
    .child 0 .accept] ++ throughWindow 0

theorem racedRecovery_not_barred : ∃ s, runAll (step 1) racedRecovery init = some s ∧
    s.waiter = .passed ∧ (s.child 0).stage = .session ∧ ¬ Barred 1 s := by
  have hend : (runAll (step 1) racedRecovery init).any (fun s =>
      s.waiter == .passed && (s.child 0).stage == .session) = true := by
    decide +kernel
  obtain ⟨s, hs, hdone⟩ := (Option.any_eq_true _ _).1 hend
  simp only [Bool.and_eq_true, beq_iff_eq] at hdone
  obtain ⟨hpassed, hsession⟩ := hdone
  refine ⟨s, hs, hpassed, hsession, fun hbarred => ?_⟩
  have := hbarred hpassed 0 Nat.one_pos
  simp [hsession, Stage.serving] at this

end PgPool.Recovery
