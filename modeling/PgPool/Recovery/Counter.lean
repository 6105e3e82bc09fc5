import Mathlib.Algebra.BigOperators.Group.Finset.Piecewise
import PgPool.Recovery.Barrier

/-!
# The connection counter

`connection_count_up` comes after `accept` and `connection_count_down` after the frontend is closed, so
that the counter lags behind the frontends by the children that are in between.
-/

namespace PgPool.Recovery

open Transition

/-- The child holds an accepted frontend. -/
def Child.holds (x : Child) : Bool := decide (0 < x.frontends)

/-- A frontend is open that is not counted yet, or that the exit of the process is about to close. -/
def Child.uncounted (x : Child) : Bool :=
  match x.stage with
  | .opened => true
  | .exiting => x.holds
  | _ => false

/-- The frontend is closed and still counted. -/
def Child.lingers (x : Child) : Bool :=
  match x.stage with
  | .closing | .ended | .cleared => true
  | .refused => x.accepted
  | _ => false

/-- How many children there are of a kind. -/
def number (n : Nat) (s : State) (p : Child → Bool) : Nat :=
  ((Finset.range n).filter fun c => p (s.child c) = true).card

/-- The counter is the number of children that hold a frontend, and a connection that has been accepted is
counted up once and down once. -/
structure CountsFrontends (n : Nat) (s : State) : Prop where
  counter : s.connCounter + number n s Child.uncounted = number n s Child.holds + number n s Child.lingers
  up : ∀ c, c < n → (s.child c).accepts = (s.child c).ups + ((s.child c).stage == .opened).toNat
  down : ∀ c, c < n → (s.child c).ups = (s.child c).downs + (s.child c).counts.toNat

/-- `child_exit` finds in `accepted` whether there is something to count down, and the loop is not begun
again with a connection that has not been counted down. -/
def Child.Balanced (x : Child) : ChildEvent → Prop
  | .childExit =>
      match x.stage with
      | .opened | .counted | .cleared => False
      | .top | .exiting => x.accepted = false
      | _ => True
  | .again => x.accepted = false
  | .abandon => False
  | _ => True

def Balanced (s : State) : Event → Prop
  | .child c e => (s.child c).Balanced e
  | _ => True

/-- The number of open frontends where it is certain. -/
def Stage.frontends? : Stage → Option Nat
  | .opened | .counted | .checking | .startup | .session => some 1
  | .exiting => none
  | _ => some 0

/-- What a child has counted is what it works on. -/
structure Child.Exact (x : Child) : Prop where
  sound : x.Sound
  frontends : ∀ k, x.stage.frontends? = some k → x.frontends = k
  up : x.accepts = x.ups + (x.stage == .opened).toNat
  down : x.ups = x.downs + x.counts.toNat

/-- `accepted` is set where something is counted, and only there. -/
theorem Child.Exact.exitsOnce {x y : Child} {inRecovery : Bool} {e : ChildEvent} {count : Count}
    (h : x.Exact) (hok : x.Balanced e) (hstep : x.step inRecovery e = some (y, count)) : x.ExitsOnce e := by
  cases e with
  | childExit =>
    intro hset
    have hlive : x.stage ≠ .dead := by
      intro hdead
      simp [Child.step, hdead] at hstep
    have hdown := h.down
    have haccepted := h.sound.accepted
    suffices hcounts : x.counts = true by
      rw [hcounts, Bool.toNat_true] at hdown
      omega
    simp only [Child.Balanced] at hok
    cases hstage : x.stage <;> simp_all [Child.counts, Stage.accepted?]
  | _ => trivial

/-- An exit counts down the connection that is counted. -/
theorem Child.Exact.childExit {x y : Child} {inRecovery : Bool} {count : Count} (h : x.Exact)
    (hok : x.Balanced .childExit) (hstep : x.step inRecovery .childExit = some (y, count)) :
    y.accepts = y.ups ∧ y.ups = y.downs := by
  have hup := h.up
  have hdown := h.down
  have haccepted := h.sound.accepted
  simp only [Child.step, Option.ite_none_left_eq_some] at hstep
  obtain ⟨hlive, hstep⟩ := hstep
  simp only [Child.Balanced] at hok
  split at hstep
  · next hset =>
    cases hstep
    cases hstage : x.stage <;> simp_all [Child.counts, Stage.accepted?]
  · next hset =>
    cases hstep
    cases hstage : x.stage <;> simp_all [Child.counts, Stage.accepted?]

theorem Child.Exact.step {x y : Child} {inRecovery : Bool} {e : ChildEvent} {count : Count}
    (h : x.Exact) (hok : x.Balanced e) (hstep : x.step inRecovery e = some (y, count)) : y.Exact := by
  have hsound := h.sound.step (h.exitsOnce hok hstep) hstep
  cases e
  case childExit =>
    obtain ⟨hup, hdown⟩ := h.childExit hok hstep
    have hstage : y.stage = .exiting := by
      simp only [Child.step, Option.ite_none_left_eq_some] at hstep
      obtain ⟨-, hstep⟩ := hstep
      split at hstep <;> cases hstep <;> rfl
    refine ⟨hsound, ?_, ?_, ?_⟩
    · simp [hstage, Stage.frontends?]
    · rw [hstage]
      exact hup
    · simpa [hstage, Child.counts] using hdown
  case abandon => exact hok.elim
  all_goals
    obtain ⟨⟨haccepted, -⟩, hfrontends, hup, hdown⟩ := h
    simp only [Child.step, Option.ite_none_right_eq_some] at hstep
    obtain ⟨hstage, hstep⟩ := hstep
    cases hstep
    simp only [Child.Balanced] at hok
    refine ⟨hsound, ?_, ?_, ?_⟩
    · grind [Stage.frontends?]
    · grind
    · grind [Child.counts, Stage.accepted?]

/-! ## All children -/

structure ExactlyCounted (n : Nat) (s : State) : Prop where
  counted : Counted n s
  exact : ∀ c, c < n → (s.child c).Exact

theorem exactlyCounted_init (n : Nat) : ExactlyCounted n init where
  counted := counted_init n
  exact c hc := by
    refine ⟨(counted_init n).sound c hc, ?_, rfl, rfl⟩
    simp [init, Stage.frontends?]

theorem ExactlyCounted.exitsOnce {n : Nat} {s t : State} (h : ExactlyCounted n s) {e : Event}
    (hok : Balanced s e) (hstep : step n s e = some t) : ExitsOnce s e := by
  cases stepped_of_step hstep with
  | @child c e x count hc hx => exact (h.exact c hc).exitsOnce hok hx
  | _ => trivial

theorem ExactlyCounted.step {n : Nat} {s t : State} (h : ExactlyCounted n s) {e : Event}
    (hok : Balanced s e) (hstep : step n s e = some t) : ExactlyCounted n t := by
  have hcounted := h.counted.step (h.exitsOnce hok hstep) hstep
  refine ⟨hcounted, ?_⟩
  cases stepped_of_step hstep with
  | @child c e x count hc hx =>
    intro d hd
    by_cases hdc : d = c
    · subst hdc
      simpa using (h.exact d hd).step hok hx
    · simpa [hdc] using h.exact d hd
  | startRecovery => exact h.exact
  | connectionClosed => exact h.exact
  | timeout => exact h.exact
  | finishRecovery => exact h.exact

/-- One child's part of the counter. -/
theorem Child.Exact.balance {x : Child} (h : x.Exact) :
    (x.ups - x.downs) + x.uncounted.toNat = x.holds.toNat + x.lingers.toNat := by
  have hdown := h.down
  have hfrontends := h.frontends
  have hdiff : x.ups - x.downs = x.counts.toNat := by omega
  rw [hdiff]
  cases hstage : x.stage <;>
    simp_all [Child.counts, Child.uncounted, Child.holds, Child.lingers, Stage.frontends?]

theorem number_eq_sum (n : Nat) (s : State) (p : Child → Bool) :
    number n s p = ∑ c ∈ Finset.range n, (p (s.child c)).toNat := by
  rw [number, Finset.card_filter]
  refine Finset.sum_congr rfl fun c _ => ?_
  cases p (s.child c) <;> rfl

theorem ExactlyCounted.countsFrontends {n : Nat} {s : State} (h : ExactlyCounted n s) :
    CountsFrontends n s where
  counter := by
    rw [h.counted.counter, number_eq_sum, number_eq_sum, number_eq_sum, ← Finset.sum_add_distrib,
      ← Finset.sum_add_distrib]
    exact Finset.sum_congr rfl fun c hc => (h.exact c (Finset.mem_range.1 hc)).balance
  up c hc := (h.exact c hc).up
  down c hc := (h.exact c hc).down

instance decidableBalancedChild (x : Child) : ∀ e, Decidable (x.Balanced e)
  | .childExit => by
      unfold Child.Balanced
      cases x.stage <;> infer_instance
  | .again => inferInstanceAs (Decidable (x.accepted = false))
  | .abandon => isFalse id
  | .enter | .selected | .notSelected | .test | .accept | .acceptFails | .retryAccept | .countUp
  | .setAccepted | .socketFails | .poolOpen | .drop | .retryStartup | .serve | .countDown | .finish | .clear
  | .gone | .fork => isTrue trivial

instance decidableBalanced (s : State) : ∀ e, Decidable (Balanced s e)
  | .child c e => decidableBalancedChild (s.child c) e
  | .startRecovery | .connectionClosed | .timeout | .finishRecovery => isTrue trivial

/-- One child serves a frontend.  The other drops one, serves another, and is stopped in the session. -/
def dropThenStop : List Event :=
  connect 1 ++ [.child 0 .enter, .child 0 .selected, .child 0 .test, .child 0 .accept, .child 0 .countUp,
    .child 0 .setAccepted, .child 0 .poolOpen, .child 0 .retryStartup, .child 0 .drop, .child 0 .countDown] ++
    connect 0 ++ [.child 0 .childExit, .child 0 .gone]

/-- The same, but the child is stopped right after it has counted down what it dropped. -/
def dropAndStop : List Event :=
  connect 1 ++ [.child 0 .enter, .child 0 .selected, .child 0 .test, .child 0 .accept, .child 0 .countUp,
    .child 0 .setAccepted, .child 0 .poolOpen, .child 0 .drop, .child 0 .countDown, .child 0 .childExit,
    .child 0 .gone]

end PgPool.Recovery
