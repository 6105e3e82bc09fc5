import PgPool.Recovery.Graceful

/-!
# Nobody is left waiting

A wake-up is lost when the pcp child clears `pcp_wakeup_request` after the answer to its request has
come, when a request is refused without a signal, and when a child's signal comes between its test of
`InRecovery` and `pause()`.  Without these, whoever waits is woken.
-/

namespace PgPool

namespace ParentState

variable {cfg : FailoverConfig} {p q : ParentState} {e : ParentEvent cfg} {view : View cfg} {nodeId : Int}

/-- The parent has a request to handle, or is handling one. -/
def Owes (p : ParentState) : Prop :=
  p.signalPending = true ∨ p.phase.running = true ∨
    (p.failoverRequest = true ∧ p.phase ≠ .returned .checkRequest)

instance (p : ParentState) : Decidable p.Owes := inferInstanceAs (Decidable (_ ∨ _ ∨ _))

theorem Owes.mono (h : p.Owes) (hsignal : p.signalPending = true → q.signalPending = true)
    (hphase : q.phase = p.phase) (hrequest : q.failoverRequest = p.failoverRequest) : q.Owes := by
  obtain h | h | h := h
  · exact .inl (hsignal h)
  · exact .inr (.inl (by rw [hphase]; exact h))
  · exact .inr (.inr (by rw [hphase, hrequest]; exact h))

/-- `send_failback_request` signals the parent. -/
def acceptsUp (cfg : FailoverConfig) (p : ParentState) (view : View cfg) (i : Int) : Bool :=
  !outOfRange i && !(cfg.rawMode && (p.status i != .down && p.validFor cfg view i))

/-! ## What a request leaves alone -/

theorem signalPending_degenerateBackendSet {ids : List Int} (h : p.signalPending = true) :
    (p.degenerateBackendSet cfg view ids).signalPending = true := by
  unfold degenerateBackendSet
  split
  · exact h
  · simp [h]

theorem signalPending_promoteBackend (h : p.signalPending = true) :
    (p.promoteBackend cfg view nodeId).signalPending = true := by
  unfold promoteBackend
  split
  · split
    · exact h
    · simp only
      split
      · rfl
      · exact h
  · exact h

theorem signalPending_failbackSignal (h : p.signalPending = true) :
    (p.failbackSignal cfg view nodeId).signalPending = true := by
  unfold failbackSignal
  split
  · exact h
  · split
    · simp [h]
    · rfl

theorem signalPending_startRecovery :
    (p.startRecovery cfg view nodeId).signalPending = p.signalPending := by
  unfold startRecovery
  simp only
  split <;> rfl

theorem failoverRequest_degenerateBackendSet {ids : List Int} :
    (p.degenerateBackendSet cfg view ids).failoverRequest = p.failoverRequest := by
  unfold degenerateBackendSet
  split <;> rfl

theorem failoverRequest_promoteBackend :
    (p.promoteBackend cfg view nodeId).failoverRequest = p.failoverRequest := by
  unfold promoteBackend
  split
  · split
    · rfl
    · simp only
      split <;> rfl
  · rfl

theorem failoverRequest_failbackSignal :
    (p.failbackSignal cfg view nodeId).failoverRequest = p.failoverRequest := by
  unfold failbackSignal
  split
  · rfl
  · split <;> rfl

theorem failoverRequest_startRecovery :
    (p.startRecovery cfg view nodeId).failoverRequest = p.failoverRequest := by
  unfold startRecovery
  simp only
  split <;> rfl

theorem Owes.startRecovery (h : p.Owes) : (p.startRecovery cfg view nodeId).Owes :=
  h.mono (fun hsignal => signalPending_startRecovery.trans hsignal) phase_startRecovery
    failoverRequest_startRecovery

/-! ## The parent -/

/-- A step of `failover()` leads to another one, or to its return. -/
theorem running_or_over (h : p.phase.running = true) (hstep : step cfg p e = some q) :
    q.phase.running = true ∨ q.phase.over = true := by
  cases stepped_of_step hstep with
  | degenerateBackendSet => exact .inl (by rw [phase_degenerateBackendSet]; exact h)
  | promoteBackend => exact .inl (by rw [phase_promoteBackend]; exact h)
  | failbackSignal => exact .inl (by rw [phase_failbackSignal]; exact h)
  | startRecovery => exact .inl (by rw [phase_startRecovery]; exact h)
  | failbackKind => exact .inl h
  | failbackNodeId => exact .inl h
  | closeIdle => exact .inl h
  | signal => exact .inl h
  | newConnection => exact .inl h
  | failoverHandler => exact .inl h
  | checkRequestAgain => exact .inl h
  | wakeUp phase =>
    rw [phase] at h
    cases h
  | checkRequest phase =>
    rw [phase] at h
    cases h
  | healthCheckFailed sts phase =>
    rw [phase] at h
    cases h
  | clearRequest phase =>
    rw [phase] at h
    cases h
  | healthCheckNodeId => exact .inl rfl
  | choosePrimary => exact .inl rfl
  | followPrimary => exact .inl rfl
  | saveNodeIds => exact .inr rfl
  | lock =>
    unfold lock
    split
    · exact .inr rfl
    · exact .inl rfl
  | testFailback =>
    unfold testFailback
    simp only
    repeat' split
    · exact .inr rfl
    · exact .inr rfl
    · exact .inl rfl
    · exact .inl rfl
  | dispatch =>
    unfold dispatch
    simp only
    repeat' split
    · exact .inr rfl
    · exact .inl rfl
    · exact .inr rfl
    · exact .inr rfl
    · exact .inl rfl

theorem not_over (h : p.phase.running = true) : p.phase.over = false := by
  revert h
  cases p.phase <;> simp [FailoverPhase.running, FailoverPhase.over]

/-- What the parent owes is done by a `failover()` that returns. -/
theorem Owes.step (h : p.Owes) (hstep : ParentState.step cfg p e = some q) :
    q.Owes ∨ (q.phase.over = true ∧ p.phase.over = false) := by
  by_cases hrunning : p.phase.running = true
  · exact (running_or_over hrunning hstep).imp (fun hq => .inr (.inl hq))
      fun hover => ⟨hover, not_over hrunning⟩
  refine .inl ?_
  have hat : ∀ {phase : FailoverPhase}, p.phase = phase → phase.running = true → q.Owes := by
    rintro phase rfl hrun
    exact absurd hrun hrunning
  cases stepped_of_step hstep with
  | degenerateBackendSet =>
    exact h.mono signalPending_degenerateBackendSet phase_degenerateBackendSet
      failoverRequest_degenerateBackendSet
  | promoteBackend =>
    exact h.mono signalPending_promoteBackend phase_promoteBackend failoverRequest_promoteBackend
  | failbackSignal =>
    exact h.mono signalPending_failbackSignal phase_failbackSignal failoverRequest_failbackSignal
  | startRecovery => exact h.startRecovery
  | failbackKind => exact h.mono id rfl rfl
  | failbackNodeId => exact h.mono id rfl rfl
  | closeIdle => exact h.mono id rfl rfl
  | newConnection => exact h.mono id rfl rfl
  | signal => exact .inl rfl
  | failoverHandler signalled letsIn =>
    refine .inr (.inr ⟨rfl, fun hphase => ?_⟩)
    change p.phase = _ at hphase
    rw [hphase] at letsIn
    cases letsIn
  | wakeUp phase =>
    obtain hsignal | hrun | ⟨hrequest, -⟩ := h
    · exact .inl hsignal
    · exact absurd hrun hrunning
    · exact .inr (.inr ⟨hrequest, nofun⟩)
  | checkRequest phase =>
    obtain hsignal | hrun | ⟨hrequest, -⟩ := h
    · exact .inl hsignal
    · exact absurd hrun hrunning
    · refine .inr (.inl ?_)
      simp only [hrequest, if_true]
      rfl
  | healthCheckFailed sts phase =>
    obtain hsignal | hrun | ⟨hrequest, -⟩ := h
    · exact .inl hsignal
    · exact absurd hrun hrunning
    · exact .inr (.inr ⟨hrequest, nofun⟩)
  | healthCheckNodeId => exact .inr (.inl rfl)
  | @clearRequest caller phase =>
    obtain hsignal | hrun | ⟨hrequest, hcaller⟩ := h
    · exact .inl (by cases caller <;> exact hsignal)
    · exact absurd hrun hrunning
    · cases caller with
      | checkRequest => exact absurd phase hcaller
      | healthCheck => exact .inr (.inr ⟨hrequest, nofun⟩)
  | lock phase => exact hat phase rfl
  | testFailback phase => exact hat phase rfl
  | dispatch phase => exact hat phase rfl
  | choosePrimary phase => exact hat phase rfl
  | checkRequestAgain phase => exact hat phase rfl
  | followPrimary found below phase => exact hat phase rfl
  | saveNodeIds phase => exact hat phase rfl

/-! ## Requests that are accepted -/

/-- A degenerate request for one node is accepted. -/
theorem owes_degenerateBackendSet (hmode : cfg.parallelMode = false)
    (haccepts : p.acceptsDown cfg view nodeId = true)
    (hstep : step cfg p (.degenerateBackendSet view [nodeId]) = some q) : q.Owes := by
  simp only [step] at hstep
  split at hstep
  · cases hstep
  · cases hstep
    refine .inl ?_
    simp [degenerateBackendSet, hmode, downEntries, haccepts]

theorem owes_failbackSignal (haccepts : p.acceptsUp cfg view nodeId = true)
    (hstep : step cfg p (.failbackSignal view nodeId) = some q) : q.Owes := by
  rw [acceptsUp, Bool.and_eq_true, Bool.not_eq_true'] at haccepts
  obtain ⟨hrange, hraw⟩ := haccepts
  cases hstep
  refine .inl ?_
  rw [failbackSignal, if_neg (by rw [hrange]; exact Bool.false_ne_true)]
  split
  · next hmode =>
    rw [hmode, Bool.true_and] at hraw
    change (p.signalPending || !(p.status nodeId != .down && p.validFor cfg view nodeId)) = true
    rw [hraw, Bool.or_true]
  · rfl

theorem owes_promoteBackend (hmode : cfg.streaming = true) (hrange : outOfRange nodeId = false)
    (hvalid : p.validFor cfg view nodeId = true)
    (hstep : step cfg p (.promoteBackend view nodeId) = some q) : q.Owes := by
  simp only [step] at hstep
  split at hstep
  · cases hstep
  · cases hstep
    refine .inl ?_
    have hvalid' : ({ p with used := p.used ++ cfg.validBackendUses view.sent nodeId } :
        ParentState).validFor cfg view nodeId = true := hvalid
    simp [promoteBackend, hmode, hrange, hvalid']

end ParentState

namespace Graceful

open Transition ParentState

variable {cfg : FailoverConfig} {s t : System} {e : Event cfg}

/-- A wake-up for all children is on its way. -/
def System.WakeComing (s : System) : Prop :=
  s.parentSignal = true ∨ s.wakeupRequest = true ∨ s.pcp = .signalling

instance (s : System) : Decidable s.WakeComing := inferInstanceAs (Decidable (_ ∨ _ ∨ _))

/-- The pcp child waits, clients are kept out, and nobody is going to wake it. -/
def System.Stuck (s : System) : Prop :=
  s.pcp = .waiting ∧ s.pcpWakeupRequest = false ∧ s.inRecovery = true ∧ ¬ s.parent.Owes ∧
    s.pcpSignal = false

instance (s : System) : Decidable s.Stuck := inferInstanceAs (Decidable (_ ∧ _ ∧ _ ∧ _ ∧ _))

/-- A child pauses although clients are let in, and nobody is going to wake it. -/
def System.LeftPaused (s : System) (i : Nat) : Prop :=
  (s.child i).stage = .paused ∧ s.inRecovery = false ∧ (s.child i).signal = false ∧ ¬ s.WakeComing

instance (s : System) (i : Nat) : Decidable (s.LeftPaused i) :=
  inferInstanceAs (Decidable (_ ∧ _ ∧ _ ∧ _))

section

variable (cfg : FailoverConfig) (s : System)

/-- The parent is asked for a failover, or has one to do anyway. -/
def Requests (view : View cfg) : PcpStage → Prop
  | .closed (.detach nodeId) =>
      (cfg.parallelMode = false ∧ s.parent.acceptsDown cfg view nodeId = true) ∨ s.parent.Owes
  | .closed (.promote nodeId) =>
      (cfg.streaming = true ∧ outOfRange nodeId = false ∧ s.parent.validFor cfg view nodeId = true) ∨
        s.parent.Owes
  | .failbackNodeId nodeId => s.parent.acceptsUp cfg view nodeId = true ∨ s.parent.Owes
  | _ => True

instance (view : View cfg) : (stage : PcpStage) → Decidable (Requests cfg s view stage)
  | .closed (.detach _) => inferInstanceAs (Decidable ((_ ∧ _) ∨ _))
  | .closed (.promote _) => inferInstanceAs (Decidable ((_ ∧ _ ∧ _) ∨ _))
  | .failbackNodeId _ => inferInstanceAs (Decidable (_ ∨ _))
  | .closed (.recover _) | .idle | .recovering _ | .closing _ | .requested | .failback _
  | .failbackKind _ | .waiting | .finishing | .signalling => isTrue trivial

/-- No wake-up is lost: a request reaches the parent, the answer to it does not come before
`pcp_wakeup_request` is cleared, and the last signal to a child not between its test and `pause()`. -/
def Careful : Event cfg → Prop
  | .request view | .sendFailback view => Requests cfg s view s.pcp
  | .pcpWakeupHandler => s.pcp = .requested → s.parent.Owes
  | .child i .wakeupHandler =>
      (s.child i).stage = .pausing → s.inRecovery = true ∨ s.WakeComing
  | _ => True

instance : (e : Event cfg) → Decidable (Careful cfg s e)
  | .request _ | .sendFailback _ => inferInstanceAs (Decidable (Requests _ _ _ _))
  | .pcpWakeupHandler => inferInstanceAs (Decidable (_ → _))
  | .child _ .wakeupHandler => inferInstanceAs (Decidable (_ → _))
  | .child _ .reach | .child _ .test | .child _ .pause | .child _ .interrupt | .child _ .restart
  | .parent _ | .parentWakeupHandler | .wakeupChildren | .detachNode _ | .promoteNode _
  | .waitConnectionClosed _ | .clearWakeupRequest | .startRecovery _ _ | .secondStage
  | .recoveryFails | .restarted | .writeKind | .writeNodeId | .leaveWait | .clearInRecovery
  | .signalParent => isTrue trivial

end

/-! ## The invariant -/

/-- The child has seen `InRecovery` set. -/
def SleepStage.blocked : SleepStage → Bool
  | .pausing | .paused => true
  | _ => false

/-- Whoever waits is going to be woken. -/
structure Awake (s : System) : Prop where
  asked : s.pcp = .requested → s.parent.Owes ∨ s.pcpSignal = true
  answered : s.pcp = .waiting →
    s.pcpWakeupRequest = true ∨ s.parent.Owes ∨ s.pcpSignal = true
  children : ∀ i, (s.child i).stage.blocked = true →
    s.inRecovery = true ∨ (s.child i).signal = true ∨ s.WakeComing

theorem Awake.not_stuck (h : Awake s) : ¬ s.Stuck := by
  intro ⟨hwaiting, hflag, _, howes, hsignal⟩
  obtain h | h | h := h.answered hwaiting
  · rw [hflag] at h
    cases h
  · exact howes h
  · rw [hsignal] at h
    cases h

theorem Awake.not_leftPaused (h : Awake s) (i : Nat) : ¬ s.LeftPaused i := by
  intro ⟨hpaused, hopen, hsignal, hcoming⟩
  obtain h | h | h := h.children i (by rw [hpaused]; rfl)
  · rw [hopen] at h
    cases h
  · rw [hsignal] at h
    cases h
  · exact hcoming h

/-- A step of the pcp child that does not end in a wait. -/
theorem Awake.move {p : ParentState} {flag inRecovery : Bool} {pcp : PcpStage} (h : Awake s)
    (hrecovery : s.inRecovery = true → inRecovery = true) (hsignalling : s.pcp ≠ .signalling)
    (hrequested : pcp ≠ .requested) (hwaiting : pcp ≠ .waiting) :
    Awake { s with parent := p, inRecovery := inRecovery, pcp := pcp, pcpWakeupRequest := flag } where
  asked hpcp := absurd hpcp hrequested
  answered hpcp := absurd hpcp hwaiting
  children i hi := by
    obtain h | h | h | h | h := h.children i hi
    · exact .inl (hrecovery h)
    · exact .inr (.inl h)
    · exact .inr (.inr (.inl h))
    · exact .inr (.inr (.inr (.inl h)))
    · exact absurd h hsignalling

/-- A step of the pcp child that asks for a failover. -/
theorem Awake.ask {p : ParentState} {pcp : PcpStage} (h : Awake s) (howes : p.Owes)
    (hsignalling : s.pcp ≠ .signalling) : Awake { s with parent := p, pcp := pcp } where
  asked _ := .inl howes
  answered _ := .inr (.inl howes)
  children i hi := by
    obtain h | h | h | h | h := h.children i hi
    · exact .inl h
    · exact .inr (.inl h)
    · exact .inr (.inr (.inl h))
    · exact .inr (.inr (.inr (.inl h)))
    · exact absurd h hsignalling

theorem awake_parentStep (h : Awake s) {e : ParentEvent cfg} (hstep : parentStep cfg s e = some t) :
    Awake t := by
  unfold parentStep at hstep
  split at hstep
  · cases hstep
  obtain ⟨p, hp, rfl⟩ := Option.map_eq_some_iff.mp hstep
  have hkeeps : s.parent.Owes ∨ s.pcpSignal = true →
      p.Owes ∨ (s.pcpSignal || (p.phase.over && !s.parent.phase.over) ||
        (s.parent.phase.running && e.checks && s.parent.failoverRequest)) = true := by
    intro howes
    obtain howes | hsignal := howes
    · obtain howes | ⟨hover, hbefore⟩ := howes.step hp
      · exact .inl howes
      · exact .inr (by rw [hover, hbefore]; simp)
    · exact .inr (by rw [hsignal]; simp)
  exact ⟨fun hpcp => hkeeps (h.asked hpcp), fun hpcp => (h.answered hpcp).imp_right hkeeps, h.children⟩

theorem awake_child (h : Awake s) {i : Nat} {e : SleeperEvent} {c : Sleeper}
    (hcareful : Careful cfg s (.child i e)) (hstep : (s.child i).step s.inRecovery e = some c) :
    Awake { s with child := Function.update s.child i c } := by
  refine ⟨h.asked, h.answered, fun j hj => ?_⟩
  by_cases hji : j = i
  · subst hji
    change (Function.update s.child j c j).stage.blocked = true at hj
    change _ ∨ (Function.update s.child j c j).signal = true ∨ s.WakeComing
    rw [Function.update_self] at hj ⊢
    cases e <;> simp only [Sleeper.step, Option.ite_none_right_eq_some] at hstep
    case reach | interrupt =>
      cases hstep.2
      cases hj
    case restart =>
      cases hstep
      cases hj
    case test =>
      cases hstep.2
      cases hrecovery : s.inRecovery with
      | true => exact .inl rfl
      | false =>
        rw [hrecovery] at hj
        cases hj
    case pause =>
      obtain ⟨hstage, hstep⟩ := hstep
      cases hstep
      exact h.children j (by rw [hstage]; rfl)
    case wakeupHandler =>
      cases hstep.2
      have hpausing : (s.child j).stage = .pausing := by
        revert hj
        cases (s.child j).stage <;> simp [SleepStage.blocked]
      obtain hopen | hcoming := hcareful hpausing
      · exact .inl hopen
      · exact .inr (.inr hcoming)
  · change (Function.update s.child i c j).stage.blocked = true at hj
    change _ ∨ (Function.update s.child i c j).signal = true ∨ s.WakeComing
    rw [Function.update_of_ne hji] at hj ⊢
    exact h.children j hj

theorem awake_request (h : Awake s) {view : View cfg} (hcareful : Careful cfg s (.request view))
    (hstep : step cfg s (.request view) = some t) : Awake t := by
  simp only [step] at hstep
  split at hstep
  · next command hpcp =>
    have hrequests : Requests cfg s view s.pcp := hcareful
    have hsignalling : s.pcp ≠ .signalling := by
      rw [hpcp]
      nofun
    rw [hpcp] at hrequests
    cases command with
    | detach nodeId =>
      obtain ⟨p, hp, rfl⟩ := Option.map_eq_some_iff.mp hstep
      obtain ⟨hmode, haccepts⟩ | howes := hrequests
      · exact h.ask (owes_degenerateBackendSet hmode haccepts hp) hsignalling
      · simp only [ParentState.step, Option.ite_none_left_eq_some] at hp
        cases hp.2
        exact h.ask (howes.mono signalPending_degenerateBackendSet phase_degenerateBackendSet
          failoverRequest_degenerateBackendSet) hsignalling
    | promote nodeId =>
      obtain ⟨p, hp, rfl⟩ := Option.map_eq_some_iff.mp hstep
      obtain ⟨hmode, hrange, hvalid⟩ | howes := hrequests
      · exact h.ask (owes_promoteBackend hmode hrange hvalid hp) hsignalling
      · simp only [ParentState.step, Option.ite_none_left_eq_some] at hp
        cases hp.2
        exact h.ask (howes.mono signalPending_promoteBackend phase_promoteBackend
          failoverRequest_promoteBackend) hsignalling
    | recover nodeId => cases hstep
  · cases hstep

theorem awake_sendFailback (h : Awake s) {view : View cfg} (hcareful : Careful cfg s (.sendFailback view))
    (hstep : step cfg s (.sendFailback view) = some t) : Awake t := by
  simp only [step] at hstep
  split at hstep
  · next nodeId hpcp =>
    have hrequests : Requests cfg s view s.pcp := hcareful
    have hsignalling : s.pcp ≠ .signalling := by
      rw [hpcp]
      nofun
    rw [hpcp] at hrequests
    obtain ⟨p, hp, rfl⟩ := Option.map_eq_some_iff.mp hstep
    obtain haccepts | howes := hrequests
    · exact h.ask (owes_failbackSignal haccepts hp) hsignalling
    · cases hp
      exact h.ask (howes.mono signalPending_failbackSignal phase_failbackSignal
        failoverRequest_failbackSignal) hsignalling
  · cases hstep

/-- What wakes the children is passed on from the pcp child to the parent, and by it to each. -/
theorem awake_step (h : Awake s) (hcareful : Careful cfg s e) (hstep : step cfg s e = some t) :
    Awake t := by
  cases e
  case request view => exact awake_request h hcareful hstep
  case sendFailback view => exact awake_sendFailback h hcareful hstep
  all_goals
    simp only [step, Option.ite_none_right_eq_some] at hstep
  case parent e => exact awake_parentStep h hstep
  case child i e =>
    obtain ⟨c, hc, rfl⟩ := Option.map_eq_some_iff.mp hstep
    exact awake_child h hcareful hc
  case parentWakeupHandler =>
    cases hstep.2
    refine ⟨h.asked, h.answered, fun i hi => ?_⟩
    obtain hopen | hsignal | _ | _ | hsignalling := h.children i hi
    · exact .inl hopen
    · exact .inr (.inl hsignal)
    · exact .inr (.inr (.inr (.inl rfl)))
    · exact .inr (.inr (.inr (.inl rfl)))
    · exact .inr (.inr (.inr (.inr hsignalling)))
  case wakeupChildren =>
    cases hstep.2
    exact ⟨h.asked, h.answered, fun _ _ => .inr (.inl rfl)⟩
  case detachNode nodeId =>
    obtain ⟨hpcp, hstep⟩ := hstep
    cases hstep
    exact h.move (fun _ => rfl) (by rw [hpcp]; nofun) nofun nofun
  case promoteNode nodeId =>
    obtain ⟨⟨hpcp, -⟩, hstep⟩ := hstep
    cases hstep
    exact h.move (fun _ => rfl) (by rw [hpcp]; nofun) nofun nofun
  case waitConnectionClosed timedOut =>
    split at hstep
    · next command hpcp =>
      cases hstep
      cases timedOut with
      | true => exact h.move id (by rw [hpcp]; nofun) nofun nofun
      | false => exact h.move id (by rw [hpcp]; nofun) nofun nofun
    · cases hstep
  case clearWakeupRequest =>
    obtain ⟨hpcp, hstep⟩ := hstep
    cases hstep
    refine ⟨nofun, fun _ => .inr (h.asked hpcp), fun i hi => ?_⟩
    obtain hopen | hsignal | hsignal | hrequest | hsignalling := h.children i hi
    · exact .inl hopen
    · exact .inr (.inl hsignal)
    · exact .inr (.inr (.inl hsignal))
    · exact .inr (.inr (.inr (.inl hrequest)))
    · rw [hpcp] at hsignalling
      cases hsignalling
  case startRecovery view nodeId =>
    obtain ⟨⟨hpcp, -⟩, hstep⟩ := hstep
    cases hstep
    split
    · exact h.move id (by rw [hpcp]; nofun) nofun nofun
    · exact h.move id (by rw [hpcp]; nofun) nofun nofun
  case secondStage =>
    split at hstep
    · next nodeId hpcp =>
      split at hstep
      · cases hstep
        exact h.move (fun _ => rfl) (by rw [hpcp]; nofun) nofun nofun
      · cases hstep
        exact h.move id (by rw [hpcp]; nofun) nofun nofun
    · cases hstep
  case recoveryFails =>
    split at hstep
    · next hpcp =>
      cases hstep
      exact h.move id (by rw [hpcp]; nofun) nofun nofun
    · next hpcp =>
      cases hstep
      exact h.move id (by rw [hpcp]; nofun) nofun nofun
    · cases hstep
  case restarted =>
    split at hstep
    · next nodeId hpcp =>
      cases hstep
      exact h.move id (by rw [hpcp]; nofun) nofun nofun
    · cases hstep
  case writeKind =>
    split at hstep
    · next nodeId hpcp =>
      obtain ⟨p, -, rfl⟩ := Option.map_eq_some_iff.mp hstep
      exact h.move id (by rw [hpcp]; nofun) nofun nofun
    · cases hstep
  case writeNodeId =>
    split at hstep
    · next nodeId hpcp =>
      obtain ⟨p, -, rfl⟩ := Option.map_eq_some_iff.mp hstep
      exact h.move id (by rw [hpcp]; nofun) nofun nofun
    · cases hstep
  case leaveWait =>
    obtain ⟨⟨hpcp, -⟩, hstep⟩ := hstep
    cases hstep
    exact h.move id (by rw [hpcp]; nofun) nofun nofun
  case clearInRecovery =>
    obtain ⟨-, hstep⟩ := hstep
    cases hstep
    exact ⟨nofun, nofun, fun _ _ => .inr (.inr (.inr (.inr rfl)))⟩
  case signalParent =>
    obtain ⟨-, hstep⟩ := hstep
    cases hstep
    exact ⟨nofun, nofun, fun _ _ => .inr (.inr (.inl rfl))⟩
  case pcpWakeupHandler =>
    obtain ⟨-, hstep⟩ := hstep
    cases hstep
    exact ⟨fun hpcp => .inl (hcareful hpcp), fun _ => .inl rfl, h.children⟩

theorem awake_of_started (h : Started cfg s) : Awake s where
  asked hpcp := by
    rw [h.pcp] at hpcp
    cases hpcp
  answered hpcp := by
    rw [h.pcp] at hpcp
    cases hpcp
  children i hi := by
    rw [h.awake i] at hi
    cases hi

/-- In every run in which no wake-up is lost, the pcp child is never stuck and no child left paused. -/
theorem not_stuck_of_careful (hstart : Started cfg s) (hrun : Run (step cfg) (Careful cfg) s t) :
    ¬ t.Stuck ∧ ∀ i, ¬ t.LeftPaused i := by
  have h : Awake t := by
    refine hrun.invariant ?_ (awake_of_started hstart)
    intro s e t hs hcareful hstep
    exact awake_step hs hcareful hstep
  exact ⟨h.not_stuck, h.not_leftPaused⟩

/-! ## Runs -/

/-- The replicas, with nobody waiting. -/
def replicasIdle : System where
  parent := replicasStart
  parentSignal := false
  wakeupRequest := false
  inRecovery := false
  pcp := .idle
  pcpWakeupRequest := false
  pcpSignal := false
  child _ := ⟨.elsewhere, false⟩

theorem started_replicasIdle : Started replicas replicasIdle := ⟨started_replicas, rfl, fun _ => rfl⟩

/-- The pcp child asks for the detachment of a node and waits; child 0 pauses with a client. -/
def detachAndWait (nodeId : Int) : List (Event replicas) :=
  [.child 0 .reach, .detachNode nodeId, .child 0 .test, .child 0 .pause, .waitConnectionClosed false,
   .request replicasUp, .clearWakeupRequest]

/-- Node 1 is detached, and the child accepts its client. -/
def detachNode1 : List (Event replicas) :=
  detachAndWait 1 ++ [.parent .failoverHandler] ++ runFailover.map .parent ++
    [.pcpWakeupHandler, .leaveWait, .clearInRecovery, .signalParent, .parentWakeupHandler,
     .parent .wakeUp, .wakeupChildren, .child 0 .wakeupHandler, .child 0 .test]

theorem not_stuck_detachNode1 : ∃ t, Run (step replicas) (Careful replicas) replicasIdle t ∧
    (t.pcp = .idle ∧ (t.child 0).stage = .elsewhere) ∧ ¬ t.Stuck ∧ ∀ i, ¬ t.LeftPaused i := by
  have hend : (runAll (step replicas) detachNode1 replicasIdle).any (fun t =>
      decide (t.pcp = .idle ∧ (t.child 0).stage = .elsewhere)) = true := by decide +kernel
  obtain ⟨t, ht, hdone⟩ := (Option.any_eq_true _ _).1 hend
  have hrun : Run (step replicas) (Careful replicas) replicasIdle t :=
    .of_runAll ht (by decide +kernel)
  exact ⟨t, hrun, of_decide_eq_true hdone, not_stuck_of_careful started_replicasIdle hrun⟩

/-- Recovery times out while child 0 is between its test and `pause()`, and its signal comes there. -/
def pauseTooLate : List (Event replicas) :=
  [.child 0 .reach, .detachNode 1, .child 0 .test, .waitConnectionClosed true, .clearInRecovery,
   .signalParent, .parentWakeupHandler, .parent .wakeUp, .wakeupChildren, .child 0 .wakeupHandler,
   .child 0 .pause]

/-- Node 0 may not be degenerated: the request is dropped without a signal, with the mailbox empty and
the pcp child waiting.  And a child pauses for good. -/
theorem stuck_detachNode0 : Started replicas replicasIdle ∧
    (∃ t, Run (step replicas) Any replicasIdle t ∧ t.Stuck ∧ ∀ i ∈ t.parent.entries, i = -1) ∧
    ∃ t, Run (step replicas) Any replicasIdle t ∧ t.LeftPaused 0 := by
  have hfirst : (runAll (step replicas) (detachAndWait 0) replicasIdle).any (fun t =>
      decide t.Stuck && decide (∀ i ∈ t.parent.entries, i = -1)) = true := by decide +kernel
  have hsecond : (runAll (step replicas) pauseTooLate replicasIdle).any (fun t =>
      decide (t.LeftPaused 0)) = true := by decide +kernel
  obtain ⟨t, ht, hdone⟩ := (Option.any_eq_true _ _).1 hfirst
  obtain ⟨hstuck, hempty⟩ := Bool.and_eq_true_iff.1 hdone
  obtain ⟨u, hu, hpaused⟩ := (Option.any_eq_true _ _).1 hsecond
  exact ⟨started_replicasIdle,
    ⟨t, .of_runAll ht (holds_any ..), of_decide_eq_true hstuck, of_decide_eq_true hempty⟩,
    u, .of_runAll hu (holds_any ..), of_decide_eq_true hpaused⟩

end Graceful

end PgPool
