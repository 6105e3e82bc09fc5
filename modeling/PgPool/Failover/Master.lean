import PgPool.Failover.Mailbox

/-!
# The choice of the master

`get_next_master_node()` searches the backends for the first that can be used, and `failover()` saves it
as the new master.  In raw mode it passes over the backends that have already been connected to.
-/

namespace PgPool

/-- The new master that `failover()` has chosen and not saved yet. -/
def FailoverPhase.newMaster? : FailoverPhase → Option Int
  | .chosen _ _ _ newMaster | .searching _ _ _ newMaster _ | .finishing _ _ _ newMaster =>
      some newMaster
  | _ => none

namespace ParentState

open Transition

section

variable (cfg : FailoverConfig) (s : ParentState)

/-- A backend that has not been detached. -/
def Usable (i : Int) : Prop := (s.status i).isUp = true

def NoneUsable : Prop := ∀ i, cfg.IsNode i → ¬ s.Usable i

/-- The usable node with the lowest number. -/
structure IsLowest (n : Int) : Prop where
  isNode : cfg.IsNode n
  usable : s.Usable n
  lowest : ∀ i, cfg.IsNode i → i < n → ¬ s.Usable i

def SelectsLowest : Prop :=
  s.IsLowest cfg (s.getNextMasterNode cfg) ∨ s.getNextMasterNode cfg = -1 ∧ s.NoneUsable cfg

/-- In raw mode, below every backend that has been connected to there is one that waits to be. -/
def WaitsBelow : Prop :=
  cfg.rawMode = true → ∀ i, cfg.IsNode i → s.status i = .up →
    ∃ j, cfg.IsNode j ∧ j < i ∧ s.status j = .connectWait

/-- What `get_next_master_node()` looks for. -/
def candidate (i : Int) : Bool := if cfg.rawMode then s.status i == .connectWait else s.valid cfg i

end

variable {cfg : FailoverConfig} {start s t : ParentState} {newMaster : Int}

variable (cfg s) in
/-- The first candidate, or -1. -/
theorem getNextMasterNode_spec :
    (cfg.IsNode (s.getNextMasterNode cfg) ∧ s.candidate cfg (s.getNextMasterNode cfg) = true ∧
        ∀ i, cfg.IsNode i → i < s.getNextMasterNode cfg → s.candidate cfg i = false) ∨
      s.getNextMasterNode cfg = -1 ∧ ∀ i, cfg.IsNode i → s.candidate cfg i = false := by
  have hdef : s.getNextMasterNode cfg = (cfg.nodes.find? (s.candidate cfg)).getD (-1) := rfl
  rw [hdef, FailoverConfig.nodes, List.find?_map]
  cases hfind : (List.range cfg.numBackends).find? (s.candidate cfg ∘ Int.ofNat) with
  | none =>
    right
    refine ⟨rfl, fun i hi => ?_⟩
    obtain ⟨k, rfl⟩ := Int.eq_ofNat_of_zero_le hi.1
    simpa using List.find?_range_eq_none.1 hfind k (Int.ofNat_lt.1 hi.2)
  | some k =>
    left
    obtain ⟨hk, hmem, hbelow⟩ := List.find?_range_eq_some.1 hfind
    have hlt := List.mem_range.1 hmem
    simp only [Option.map_some, Option.getD_some]
    refine ⟨⟨Int.natCast_nonneg k, ?_⟩, hk, fun i hi hik => ?_⟩
    · simp only [Int.ofNat_eq_natCast]
      omega
    · simp only [Int.ofNat_eq_natCast] at hik
      obtain ⟨j, rfl⟩ := Int.eq_ofNat_of_zero_le hi.1
      simpa using hbelow j (Int.ofNat_lt.1 hik)

theorem usable_iff {i : Int} : s.Usable i ↔ s.status i = .connectWait ∨ s.status i = .up := by
  unfold Usable
  cases s.status i <;> simp [BackendStatus.isUp]

theorem usable_of_candidate {i : Int} (h : s.candidate cfg i = true) : s.Usable i := by
  unfold candidate valid FailoverConfig.validBackend at h
  split at h
  · exact usable_iff.2 (Or.inl (by simpa using h))
  · rename_i hraw
    simpa [hraw, Usable] using h

/-- In the other modes every usable node is a candidate. -/
theorem candidate_of_usable {i : Int} (hraw : cfg.rawMode = false) (h : s.Usable i) :
    s.candidate cfg i = true := by
  have h : (s.status i).isUp = true := h
  simp [candidate, valid, FailoverConfig.validBackend, hraw, h]

/-- In raw mode only those are that have not been connected to. -/
theorem candidate_raw {i : Int} (hraw : cfg.rawMode = true) :
    s.candidate cfg i = true ↔ s.status i = .connectWait := by
  simp [candidate, hraw]

/-- The lowest of the backends that wait is the lowest of all if and only if none that has been connected
to comes first. -/
theorem selectsLowest_iff : s.SelectsLowest cfg ↔ s.WaitsBelow cfg := by
  constructor
  · intro hselects hraw i hi hup
    have husable : s.Usable i := usable_iff.2 (Or.inr hup)
    obtain ⟨hnode, hcandidate, -⟩ | ⟨hnone, -⟩ := getNextMasterNode_spec cfg s
    · have hwait := (candidate_raw hraw).1 hcandidate
      refine ⟨_, hnode, ?_, hwait⟩
      obtain hlowest | ⟨heq, -⟩ := hselects
      · have hne : s.getNextMasterNode cfg ≠ i := by
          intro heq
          simp [heq, hup] at hwait
        have := hlowest.lowest i hi
        by_contra hnot
        exact this (by omega) husable
      · have := hnode.1
        omega
    · obtain hlowest | ⟨-, hall⟩ := hselects
      · have := hlowest.isNode.1
        omega
      · exact absurd husable (hall i hi)
  · intro hwaits
    obtain ⟨hnode, hcandidate, hbelow⟩ | ⟨hnone, hall⟩ :=
      getNextMasterNode_spec cfg s
    · refine Or.inl ⟨hnode, usable_of_candidate hcandidate, fun i hi hlt husable => ?_⟩
      cases hraw : cfg.rawMode with
      | false =>
        have := hbelow i hi hlt
        rw [candidate_of_usable hraw husable] at this
        cases this
      | true =>
        obtain hwait | hup := usable_iff.1 husable
        · have := hbelow i hi hlt
          rw [(candidate_raw hraw).2 hwait] at this
          cases this
        · obtain ⟨j, hj, hji, hwait⟩ := hwaits hraw i hi hup
          have := hbelow j hj (by omega)
          rw [(candidate_raw hraw).2 hwait] at this
          cases this
    · refine Or.inr ⟨hnone, fun i hi husable => ?_⟩
      cases hraw : cfg.rawMode with
      | false =>
        have := hall i hi
        rw [candidate_of_usable hraw husable] at this
        cases this
      | true =>
        obtain hwait | hup := usable_iff.1 husable
        · have := hall i hi
          rw [(candidate_raw hraw).2 hwait] at this
          cases this
        · obtain ⟨j, hj, -, hwait⟩ := hwaits hraw i hi hup
          have := hall j hj
          rw [(candidate_raw hraw).2 hwait] at this
          cases this

/-! ## What is saved -/

/-- What has been chosen stays usable, or there was nothing to choose from. -/
structure Chosen (cfg : FailoverConfig) (start s : ParentState) (newMaster : Int) : Prop where
  usable : 0 ≤ newMaster → cfg.IsNode newMaster ∧ s.Usable newMaster
  none : newMaster < 0 → ∃ u, Run (step cfg) (fun s _ => s.WaitsBelow cfg) start u ∧
    Run (step cfg) (fun s _ => s.WaitsBelow cfg) u s ∧ u.getNextMasterNode cfg = -1 ∧
      (u = s ∨ u.WaitsBelow cfg)

/-- The choice is made on the statuses of the moment. -/
theorem chosen_now (hrun : Run (step cfg) (fun s _ => s.WaitsBelow cfg) start s) :
    Chosen cfg start s (s.getNextMasterNode cfg) where
  usable hpos := by
    obtain ⟨hnode, hcandidate, -⟩ | ⟨hnone, -⟩ := getNextMasterNode_spec cfg s
    · exact ⟨hnode, usable_of_candidate hcandidate⟩
    · omega
  none hneg := by
    obtain ⟨hnode, -⟩ | ⟨hnone, -⟩ := getNextMasterNode_spec cfg s
    · have := hnode.1
      omega
    · exact ⟨s, hrun, .refl, hnone, Or.inl rfl⟩

/-- Nothing but the parent detaches a node. -/
theorem Chosen.step (h : Chosen cfg start s newMaster) {e : ParentEvent cfg} (hwaits : s.WaitsBelow cfg)
    (hstep : step cfg s e = some t) (hkeeps : ∀ i, s.Usable i → t.Usable i) :
    Chosen cfg start t newMaster where
  usable hpos := ⟨(h.usable hpos).1, hkeeps _ (h.usable hpos).2⟩
  none hneg := by
    obtain ⟨u, hstart, hrun, hnone, hu⟩ := h.none hneg
    refine ⟨u, hstart, hrun.step e hwaits hstep, hnone, Or.inr ?_⟩
    obtain rfl | hu := hu
    · exact hwaits
    · exact hu

theorem usable_setDown_nil {i : Int} (h : s.Usable i) :
    ({ s with status := setDown s.status [] } : ParentState).Usable i := by
  simpa [Usable, setDown] using h

theorem newMaster?_testFailback {caller : Caller} :
    (s.testFailback cfg caller).phase.newMaster? = none ∨
      (s.testFailback cfg caller).phase.newMaster? =
        some ((s.testFailback cfg caller).getNextMasterNode cfg) := by
  unfold testFailback
  extract_lets nodeId t
  split
  · split
    · exact Or.inl rfl
    · split
      · exact Or.inl rfl
      · exact Or.inr rfl
  · exact Or.inl rfl

theorem newMaster?_dispatch {caller : Caller} {nodeId : Int} :
    (s.dispatch cfg caller nodeId).phase.newMaster? = none ∨
      (s.dispatch cfg caller nodeId).phase.newMaster? =
        some ((s.dispatch cfg caller nodeId).getNextMasterNode cfg) := by
  unfold dispatch
  extract_lets t down u
  split
  · split
    · exact Or.inl rfl
    · split
      · exact Or.inr rfl
      · exact Or.inl rfl
  · split
    · exact Or.inl rfl
    · exact Or.inr rfl

theorem newMaster?_followPrimary {caller : Caller} {nodeId newPrimary : Int} {nodes : List Int}
    {below : Bool} :
    let t := s.followPrimary cfg caller nodeId nodes newMaster newPrimary below
    (t.phase.newMaster? = some newMaster ∧ ∀ i, s.Usable i → t.Usable i) ∨
      t.phase.newMaster? = some (t.getNextMasterNode cfg) := by
  intro t
  by_cases hfollow :
      (if s.followDegenerates cfg nodeId nodes below then followers cfg newPrimary else []) = []
  · left
    refine ⟨?_, fun i hi => ?_⟩
    · simp only [t, followPrimary, hfollow, FailoverPhase.newMaster?, if_true]
    · simp only [t, followPrimary, hfollow]
      exact usable_setDown_nil hi
  · right
    simp only [t, followPrimary, hfollow, FailoverPhase.newMaster?, if_false]
    rfl

/-- A step keeps the choice and the nodes that can be used, or makes a choice, or ends with it. -/
theorem newMaster?_step {e : ParentEvent cfg} (hstep : step cfg s e = some t) :
    t.phase.newMaster? = none ∨
      (t.phase.newMaster? = s.phase.newMaster? ∧ ∀ i, s.Usable i → t.Usable i) ∨
        t.phase.newMaster? = some (t.getNextMasterNode cfg) := by
  have same : ∀ {u : ParentState}, u.phase = s.phase → u.status = s.status →
      u.phase.newMaster? = none ∨
        (u.phase.newMaster? = s.phase.newMaster? ∧ ∀ i, s.Usable i → u.Usable i) ∨
          u.phase.newMaster? = some (u.getNextMasterNode cfg) := by
    intro u hphase hstatus
    refine Or.inr (Or.inl ⟨by rw [hphase], fun i hi => ?_⟩)
    rwa [Usable, hstatus]
  cases stepped_of_step hstep with
  | degenerateBackendSet => exact same phase_degenerateBackendSet status_degenerateBackendSet
  | promoteBackend => exact same phase_promoteBackend status_promoteBackend
  | failbackSignal => exact same phase_failbackSignal status_failbackSignal
  | startRecovery => exact same phase_startRecovery status_startRecovery
  | failbackKind => exact same rfl rfl
  | failbackNodeId => exact same rfl rfl
  | closeIdle => exact same rfl rfl
  | signal => exact same rfl rfl
  | failoverHandler => exact same rfl rfl
  | checkRequestAgain => exact same rfl rfl
  | newConnection i =>
    refine Or.inr (Or.inl ⟨rfl, fun j hj => ?_⟩)
    by_cases hji : j = i
    · simp [Usable, hji, BackendStatus.isUp]
    · simpa [Usable, hji] using hj
  | wakeUp => exact Or.inl rfl
  | healthCheckFailed => exact Or.inl rfl
  | healthCheckNodeId => exact Or.inl rfl
  | saveNodeIds => exact Or.inl rfl
  | checkRequest =>
    left
    dsimp only
    split <;> rfl
  | lock =>
    left
    unfold lock
    split <;> rfl
  | testFailback => exact newMaster?_testFailback.imp id Or.inr
  | dispatch => exact newMaster?_dispatch.imp id Or.inr
  | choosePrimary phase =>
    refine Or.inr (Or.inl ⟨?_, fun i hi => hi⟩)
    rw [phase]
    rfl
  | followPrimary found below phase primary =>
    rw [phase]
    exact Or.inr newMaster?_followPrimary
  | @clearRequest caller phase =>
    cases caller with
    | checkRequest => exact Or.inl rfl
    | healthCheck => exact Or.inl rfl

/-- `failover()` saves a usable node, or leaves the master as it is because at the time there was no
usable node. -/
def SavesUsable (cfg : FailoverConfig) (start s t : ParentState) : Prop :=
  (cfg.IsNode t.reqInfo.masterNodeId ∧ t.Usable t.reqInfo.masterNodeId) ∨
    t.reqInfo.masterNodeId = s.reqInfo.masterNodeId ∧
      ∃ u, Run (step cfg) (fun s _ => s.WaitsBelow cfg) start u ∧
        Run (step cfg) (fun s _ => s.WaitsBelow cfg) u s ∧ u.NoneUsable cfg

/-- **The master is the lowest usable node**, in every mode, as long as in raw mode a backend that waits
comes before those that have been connected to. -/
theorem selectsLowest_of_run (hstart : start.Started cfg)
    (hrun : Run (step cfg) (fun s _ => s.WaitsBelow cfg) start s) :
    (s.SelectsLowest cfg ↔ s.WaitsBelow cfg) ∧
      ∀ t, s.WaitsBelow cfg → step cfg s .saveNodeIds = some t → SavesUsable cfg start s t := by
  refine ⟨selectsLowest_iff, fun t hwaits hstep => ?_⟩
  have hchosen : Run (step cfg) (fun s _ => s.WaitsBelow cfg) start s ∧
      ∀ m, s.phase.newMaster? = some m → Chosen cfg start s m := by
    refine hrun.invariant (I := fun s => Run (step cfg) (fun s _ => s.WaitsBelow cfg) start s ∧
      ∀ m, s.phase.newMaster? = some m → Chosen cfg start s m) ?_ ⟨.refl, fun m hm => ?_⟩
    · intro s e t ⟨hrun, hchosen⟩ hwaits hstep
      have hrun' := hrun.step e hwaits hstep
      refine ⟨hrun', fun m hm => ?_⟩
      obtain hnone | ⟨hsame, hkeeps⟩ | hnow := newMaster?_step hstep
      · simp [hnone] at hm
      · exact (hchosen m (hsame ▸ hm)).step hwaits hstep hkeeps
      · rw [hnow] at hm
        cases hm
        exact chosen_now hrun'
    · simp [hstart.phase, FailoverPhase.newMaster?] at hm
  simp only [step] at hstep
  split at hstep
  · rename_i caller nodeId newPrimary newMaster hphase
    cases hstep
    have h := hchosen.2 newMaster (by rw [hphase]; rfl)
    by_cases hpos : 0 ≤ newMaster
    · left
      simp only [saveNodeIds, hpos, if_true]
      exact h.usable hpos
    · right
      obtain ⟨u, hfirst, hrest, hnone, hu⟩ := h.none (by omega)
      refine ⟨by simp only [saveNodeIds, hpos, if_false], u, hfirst, hrest, ?_⟩
      have huwaits : u.WaitsBelow cfg := by
        obtain rfl | hu := hu
        · exact hwaits
        · exact hu
      obtain hlowest | ⟨-, hall⟩ := selectsLowest_iff.2 huwaits
      · have := hlowest.isNode.1
        omega
      · exact hall
  · cases hstep

/-- The replicas lose one of them. -/
def detachedReplica : List (ParentEvent replicas) :=
  [.newConnection 0, .newConnection 1, .degenerateBackendSet replicasUp [1], .failoverHandler,
   .wakeUp, .checkRequest, .lock, .testFailback, .dispatch, .choosePrimary, .followPrimary (-1) false]

theorem selectsLowest_of_detachedReplica :
    ∃ s t, runAll (step replicas) detachedReplica replicasStart = some s ∧
      step replicas s .saveNodeIds = some t ∧ s.SelectsLowest replicas ∧
      SavesUsable replicas replicasStart s t := by
  have hend : ((runAll (step replicas) detachedReplica replicasStart).bind fun s =>
      step replicas s .saveNodeIds).isSome = true := by decide +kernel
  obtain ⟨t, ht⟩ := Option.isSome_iff_exists.1 hend
  obtain ⟨s, hs, hsave⟩ := Option.bind_eq_some_iff.1 ht
  have hwaits : ∀ u : ParentState, u.WaitsBelow replicas := by
    intro u hraw
    cases hraw
  have hrun : Run (step replicas) (fun s _ => s.WaitsBelow replicas) replicasStart s :=
    .mono (.of_runAll hs (holds_any _ _)) fun u _ _ => hwaits u
  have h := selectsLowest_of_run started_replicas hrun
  exact ⟨s, t, hs, hsave, h.1.2 (hwaits s), h.2 t (hwaits s) hsave⟩

theorem numBackends_standby : 2 ≤ maxNumBackends := by decide

/-- Two backends in raw mode. -/
def standby : FailoverConfig where
  __ := replicas
  replicationMode := false
  modesExclusive := rfl
  numBackends := 2
  disallowToFailover := fun _ => false
  numBackends_le := numBackends_standby

theorem started_standby : replicasStart.Started standby where
  kind := rfl
  nodeId := fun _ => rfl
  masterNodeId := by decide +kernel
  primaryNodeId := Or.inl rfl
  status := by
    intro i ⟨hpos, hlt⟩
    have hlt : i < 2 := hlt
    exact Or.inl (if_pos ⟨hpos, by omega⟩)
  signalPending := rfl
  failoverRequest := rfl
  phase := rfl
  accepted := rfl
  owed := rfl
  used := rfl

/-- A process outside of a session for which no backend is up. -/
def standbyDown : View standby where
  sent := fun _ => true
  status := fun _ => .unused
  unused := fun _ _ => rfl

/-- A health check finds a backend down. -/
def healthCheck (i : Int) : List (ParentEvent standby) :=
  [.healthCheckFailed i, .healthCheckNodeId, .lock, .testFailback, .dispatch, .choosePrimary,
   .followPrimary (-1) false, .saveNodeIds, .clearRequest]

/-- Backend 0 goes down, the clients connect to backend 1, backend 0 is attached again and goes down
again. -/
def downTwice : List (ParentEvent standby) :=
  [.newConnection 0] ++ healthCheck 0 ++
    [.newConnection 1, .failbackKind, .failbackNodeId 0, .failbackSignal standbyDown 0,
     .failoverHandler, .wakeUp, .checkRequest, .lock, .testFailback, .choosePrimary,
     .followPrimary (-1) false, .saveNodeIds, .clearRequest] ++ healthCheck 0

/-- The backend that is up is passed over, and the one that is down stays the master. -/
theorem downTwice_not_selectsLowest : replicasStart.Started standby ∧
    ∃ s, runAll (step standby) downTwice replicasStart = some s ∧ s.getNextMasterNode standby = -1 ∧
      s.reqInfo.masterNodeId = 0 ∧ s.status 0 = .down ∧ s.status 1 = .up ∧
      ¬ s.SelectsLowest standby := by
  have hend : (runAll (step standby) downTwice replicasStart).any (fun s =>
      decide (s.getNextMasterNode standby = -1 ∧ s.reqInfo.masterNodeId = 0 ∧ s.status 0 = .down ∧
        s.status 1 = .up)) = true := by
    decide +kernel
  obtain ⟨s, hs, hdone⟩ := (Option.any_eq_true _ _).1 hend
  obtain ⟨hnone, hmaster, hdown, hup⟩ := of_decide_eq_true hdone
  refine ⟨started_standby, s, hs, hnone, hmaster, hdown, hup, fun hselects => ?_⟩
  obtain hlowest | ⟨-, hall⟩ := hselects
  · have := hlowest.isNode.1
    omega
  · exact hall 1 ⟨by omega, by decide⟩ (usable_iff.2 (Or.inr hup))

end ParentState

end PgPool
