import Mathlib.Algebra.BigOperators.Group.Finset.Basic
import Mathlib.Logic.Function.Basic
import PgPool.Lib.Transition

/-!
# Children that accept connections

The loop of `do_child` and `do_accept`, cut wherever another process or a signal can come in between,
together with `InRecovery`, the connection counter and a process that waits for the counter to reach
zero.  `accepted` is the variable by which `child_exit` tells whether to count down.
-/

namespace PgPool.Recovery

/-- Where a child is. -/
inductive Stage where
  /-- There is no process. -/
  | dead
  /-- The head of the loop of `do_child`, where stop requests are looked at. -/
  | top
  /-- `accepted` has been cleared; `do_accept` waits in `select`. -/
  | selecting
  /-- Where `do_accept` tests `InRecovery`. -/
  | testing
  /-- The test is past. -/
  | accepting
  /-- `accept` has returned a descriptor. -/
  | opened
  /-- `connection_count_up` has returned. -/
  | counted
  /-- `accepted` is set; the rest of `do_accept`. -/
  | checking
  /-- `do_accept` has returned NULL. -/
  | refused
  /-- From the startup packet to the session. -/
  | startup
  /-- The frontend is closed, and `connection_count_down` comes next. -/
  | closing
  | session
  /-- The frontend is closed at the end of a session. -/
  | ended
  /-- `accepted` has been cleared after a session, and `connection_count_down` comes next. -/
  | cleared
  /-- `child_exit` has counted down what it had to. -/
  | exiting
  deriving DecidableEq, Repr

/-- A child; `frontends` are the descriptors that it has accepted and not closed.  The last three say how
many connections it has accepted, counted up and counted down so far. -/
structure Child where
  stage : Stage
  accepted : Bool
  frontends : Nat
  accepts : Nat
  ups : Nat
  downs : Nat
  deriving DecidableEq, Repr

/-- What a child does next. -/
inductive ChildEvent where
  | enter
  | selected
  /-- `select` returns nothing: a timeout or a signal. -/
  | notSelected
  | test
  | accept
  | acceptFails
  /-- `accept` is interrupted during recovery, and tried again. -/
  | retryAccept
  | countUp
  | setAccepted
  /-- `setsockopt` or `pool_open` fails: the descriptor is closed. -/
  | socketFails
  | poolOpen
  /-- `continue` in `do_child`. -/
  | again
  /-- No valid startup packet, a cancel request, no connection to a backend, or a failed authentication
  on an existing one. -/
  | drop
  /-- SSL has been negotiated. -/
  | retryStartup
  /-- `do_command` has failed in `connect_using_existing_connection`. -/
  | abandon
  | serve
  | countDown
  | finish
  | clear
  /-- `child_exit`, called anywhere or by a signal handler. -/
  | childExit
  | gone
  | fork
  deriving DecidableEq, Repr

/-- What becomes of the connection counter, which is not counted down below zero. -/
inductive Count where
  | same | up | down
  deriving DecidableEq, Repr

def Count.apply (counter : Nat) : Count → Nat
  | .same => counter
  | .up => counter + 1
  | .down => counter - 1

/-- One step of a child. -/
def Child.step (inRecovery : Bool) (x : Child) : ChildEvent → Option (Child × Count)
  | .enter =>
      if x.stage = .top then some ({ x with stage := .selecting, accepted := false }, .same) else none
  | .selected => if x.stage = .selecting then some ({ x with stage := .testing }, .same) else none
  | .notSelected => if x.stage = .selecting then some ({ x with stage := .refused }, .same) else none
  | .test =>
      if x.stage = .testing ∧ inRecovery = false then some ({ x with stage := .accepting }, .same)
      else none
  | .accept =>
      if x.stage = .accepting then
        some ({ x with stage := .opened, frontends := x.frontends + 1, accepts := x.accepts + 1 }, .same)
      else none
  | .acceptFails => if x.stage = .accepting then some ({ x with stage := .refused }, .same) else none
  | .retryAccept =>
      if x.stage = .accepting ∧ inRecovery = true then some ({ x with stage := .testing }, .same)
      else none
  | .countUp =>
      if x.stage = .opened then some ({ x with stage := .counted, ups := x.ups + 1 }, .up) else none
  | .setAccepted =>
      if x.stage = .counted then some ({ x with stage := .checking, accepted := true }, .same) else none
  | .socketFails =>
      if x.stage = .checking then
        some ({ x with stage := .refused, frontends := x.frontends - 1 }, .same)
      else none
  | .poolOpen => if x.stage = .checking then some ({ x with stage := .startup }, .same) else none
  | .again => if x.stage = .refused then some ({ x with stage := .top }, .same) else none
  | .drop =>
      if x.stage = .startup then some ({ x with stage := .closing, frontends := x.frontends - 1 }, .same)
      else none
  | .retryStartup => if x.stage = .startup then some (x, .same) else none
  | .abandon => if x.stage = .startup then some ({ x with stage := .top }, .same) else none
  | .serve => if x.stage = .startup then some ({ x with stage := .session }, .same) else none
  | .countDown =>
      if x.stage = .closing ∨ x.stage = .cleared then
        some ({ x with stage := .top, downs := x.downs + 1 }, .down)
      else none
  | .finish =>
      if x.stage = .session then some ({ x with stage := .ended, frontends := x.frontends - 1 }, .same)
      else none
  | .clear =>
      if x.stage = .ended then some ({ x with stage := .cleared, accepted := false }, .same) else none
  | .childExit =>
      if x.stage = .dead then none
      else if x.accepted then some ({ x with stage := .exiting, downs := x.downs + 1 }, .down)
      else some ({ x with stage := .exiting }, .same)
  | .gone => if x.stage = .exiting then some ({ x with stage := .dead, frontends := 0 }, .same) else none
  | .fork => if x.stage = .dead then some ({ x with stage := .top, accepted := false }, .same) else none

/-- The process that recovers or detaches a node. -/
inductive Waiter where
  | idle
  /-- `InRecovery` is set; `wait_connection_closed`. -/
  | waiting
  /-- `wait_connection_closed` has returned success. -/
  | passed
  | failed
  deriving DecidableEq, Repr

structure State where
  inRecovery : Bool
  connCounter : Nat
  child : Nat → Child
  waiter : Waiter

inductive Event where
  | child (c : Nat) (e : ChildEvent)
  | startRecovery
  | connectionClosed
  | timeout
  | finishRecovery

/-- One step, with `num_init_children` children. -/
def step (n : Nat) (s : State) : Event → Option State
  | .child c e =>
      if c < n then
        match (s.child c).step s.inRecovery e with
        | none => none
        | some (x, count) =>
            some { s with
              connCounter := count.apply s.connCounter
              child := Function.update s.child c x }
      else none
  | .startRecovery =>
      if s.waiter = .idle then some { s with inRecovery := true, waiter := .waiting } else none
  | .connectionClosed =>
      if s.waiter = .waiting ∧ s.connCounter = 0 then some { s with waiter := .passed } else none
  | .timeout => if s.waiter = .waiting then some { s with waiter := .failed } else none
  | .finishRecovery =>
      if s.waiter = .passed ∨ s.waiter = .failed then some { s with inRecovery := false, waiter := .idle }
      else none

/-- The steps, each with what it takes. -/
inductive Stepped (n : Nat) (s : State) : Event → State → Prop
  | child {c : Nat} {e : ChildEvent} {x : Child} {count : Count} (isChild : c < n)
      (moves : (s.child c).step s.inRecovery e = some (x, count)) :
      Stepped n s (.child c e)
        { s with
          connCounter := count.apply s.connCounter
          child := Function.update s.child c x }
  | startRecovery (idle : s.waiter = .idle) :
      Stepped n s .startRecovery { s with inRecovery := true, waiter := .waiting }
  | connectionClosed (waiting : s.waiter = .waiting) (zero : s.connCounter = 0) :
      Stepped n s .connectionClosed { s with waiter := .passed }
  | timeout (waiting : s.waiter = .waiting) : Stepped n s .timeout { s with waiter := .failed }
  | finishRecovery (closed : s.waiter = .passed ∨ s.waiter = .failed) :
      Stepped n s .finishRecovery { s with inRecovery := false, waiter := .idle }

theorem stepped_of_step {n : Nat} {s t : State} {e : Event} (hstep : step n s e = some t) :
    Stepped n s e t := by
  cases e <;> simp only [step, Option.ite_none_right_eq_some] at hstep
  case child c e =>
    obtain ⟨hc, hstep⟩ := hstep
    split at hstep
    · cases hstep
    · next x count hx =>
      cases hstep
      exact .child hc hx
  case startRecovery =>
    obtain ⟨hidle, hstep⟩ := hstep
    cases hstep
    exact .startRecovery hidle
  case connectionClosed =>
    obtain ⟨⟨hwaiting, hzero⟩, hstep⟩ := hstep
    cases hstep
    exact .connectionClosed hwaiting hzero
  case timeout =>
    obtain ⟨hwaiting, hstep⟩ := hstep
    cases hstep
    exact .timeout hwaiting
  case finishRecovery =>
    obtain ⟨hover, hstep⟩ := hstep
    cases hstep
    exact .finishRecovery hover

/-- All children have been forked. -/
def init : State where
  inRecovery := false
  connCounter := 0
  child := fun _ => ⟨.top, false, 0, 0, 0, 0⟩
  waiter := .idle

/-! ## What is counted -/

/-- The child has counted up the connection that it is working on, and not counted it down. -/
def Child.counts (x : Child) : Bool :=
  match x.stage with
  | .counted | .checking | .startup | .closing | .session | .ended | .cleared => true
  | .refused => x.accepted
  | _ => false

/-- The value of `accepted` where it is certain. -/
def Stage.accepted? : Stage → Option Bool
  | .selecting | .testing | .accepting | .opened | .counted | .cleared => some false
  | .checking | .startup | .closing | .session | .ended => some true
  | _ => none

/-- What `child_exit` counts down has not been counted down before. -/
def Child.ExitsOnce (x : Child) : ChildEvent → Prop
  | .childExit => x.accepted = true → x.downs < x.ups
  | _ => True

/-- A child has counted up at least what it is working on. -/
structure Child.Sound (x : Child) : Prop where
  accepted : ∀ b, x.stage.accepted? = some b → x.accepted = b
  counted : x.downs + x.counts.toNat ≤ x.ups

/-- Where a child is, and what becomes of it. -/
theorem Child.Sound.step {x y : Child} {inRecovery : Bool} {e : ChildEvent} {count : Count}
    (h : x.Sound) (honce : x.ExitsOnce e) (hstep : x.step inRecovery e = some (y, count)) : y.Sound := by
  obtain ⟨haccepted, hcounted⟩ := h
  cases e <;> simp only [Child.step, Option.ite_none_right_eq_some, Option.ite_none_left_eq_some] at hstep
  case childExit =>
    simp only [Child.ExitsOnce] at honce
    obtain ⟨hlive, hstep⟩ := hstep
    split at hstep
    · next hset =>
      cases hstep
      refine ⟨by simp [Stage.accepted?], ?_⟩
      have := honce hset
      simp [Child.counts]
      omega
    · cases hstep
      refine ⟨by simp [Stage.accepted?], ?_⟩
      simp [Child.counts]
      omega
  all_goals
    obtain ⟨hstage, hstep⟩ := hstep
    cases hstep
    constructor
    · grind [Stage.accepted?]
    · grind [Child.counts, Stage.accepted?]

/-- The history says what has become of the counter. -/
theorem Child.step_count {x y : Child} {inRecovery : Bool} {e : ChildEvent} {count : Count}
    (h : x.Sound) (honce : x.ExitsOnce e) (hstep : x.step inRecovery e = some (y, count)) :
    match count with
    | .same => y.ups = x.ups ∧ y.downs = x.downs
    | .up => y.ups = x.ups + 1 ∧ y.downs = x.downs
    | .down => y.ups = x.ups ∧ y.downs = x.downs + 1 ∧ x.downs < x.ups := by
  cases e <;> simp only [Child.step, Option.ite_none_right_eq_some, Option.ite_none_left_eq_some] at hstep
  case countDown =>
    obtain ⟨hstage, hstep⟩ := hstep
    cases hstep
    have hcounted := h.counted
    have hcounts : x.counts = true := by
      rcases hstage with hstage | hstage
      · simp [Child.counts, hstage]
      · simp [Child.counts, hstage]
    rw [hcounts, Bool.toNat_true] at hcounted
    exact ⟨rfl, rfl, by omega⟩
  case childExit =>
    obtain ⟨-, hstep⟩ := hstep
    split at hstep
    · next hset =>
      cases hstep
      exact ⟨rfl, rfl, honce hset⟩
    · cases hstep
      exact ⟨rfl, rfl⟩
  all_goals
    obtain ⟨-, hstep⟩ := hstep
    cases hstep
    exact ⟨rfl, rfl⟩

/-! ## The counter -/

/-- The counter is what the children have counted up and not down again. -/
structure Counted (n : Nat) (s : State) : Prop where
  sound : ∀ c, c < n → (s.child c).Sound
  counter : s.connCounter = ∑ c ∈ Finset.range n, ((s.child c).ups - (s.child c).downs)

/-- No connection is counted down twice. -/
def ExitsOnce (s : State) : Event → Prop
  | .child c e => (s.child c).ExitsOnce e
  | _ => True

/-- What a sum over the children gains when one of them changes. -/
theorem sum_update (n : Nat) (f : Child → Nat) (child : Nat → Child) {c : Nat} (hc : c < n) (x : Child) :
    ∑ d ∈ Finset.range n, f (Function.update child c x d) + f (child c) =
      ∑ d ∈ Finset.range n, f (child d) + f x := by
  have hmem : c ∈ Finset.range n := Finset.mem_range.2 hc
  have hrest : ∑ d ∈ (Finset.range n).erase c, f (Function.update child c x d) =
      ∑ d ∈ (Finset.range n).erase c, f (child d) := by
    refine Finset.sum_congr rfl fun d hd => ?_
    rw [Function.update_of_ne (Finset.ne_of_mem_erase hd)]
  have hnew := Finset.add_sum_erase (Finset.range n) (fun d => f (Function.update child c x d)) hmem
  have hold := Finset.add_sum_erase (Finset.range n) (fun d => f (child d)) hmem
  simp only [Function.update_self] at hnew
  omega

theorem counted_init (n : Nat) : Counted n init where
  sound c _ := ⟨by simp [init, Stage.accepted?], by simp [init, Child.counts]⟩
  counter := by simp [init]

theorem Counted.step {n : Nat} {s t : State} (h : Counted n s) {e : Event} (honce : ExitsOnce s e)
    (hstep : step n s e = some t) : Counted n t := by
  cases stepped_of_step hstep with
  | @child c e x count hc hx =>
    have hsound := (h.sound c hc).step honce hx
    refine ⟨fun d hd => ?_, ?_⟩
    · by_cases hdc : d = c
      · subst hdc
        simpa using hsound
      · simpa [hdc] using h.sound d hd
    · have hsum := sum_update n (fun x => x.ups - x.downs) s.child hc x
      have hcount := Child.step_count (h.sound c hc) honce hx
      have hcounted := (h.sound c hc).counted
      have hcounter := h.counter
      cases count with
      | same =>
        simp only [Count.apply] at hcount ⊢
        omega
      | up =>
        simp only [Count.apply] at hcount ⊢
        omega
      | down =>
        simp only [Count.apply] at hcount ⊢
        omega
  | startRecovery => exact ⟨h.sound, h.counter⟩
  | connectionClosed => exact ⟨h.sound, h.counter⟩
  | timeout => exact ⟨h.sound, h.counter⟩
  | finishRecovery => exact ⟨h.sound, h.counter⟩

end PgPool.Recovery
