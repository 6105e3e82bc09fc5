import PgPool.Failover.Mailbox

/-!
# Degenerate requests are served

A degenerate request waits in the mailbox until a run of `failover()` takes its node down.  It is lost
if another request writes over its kind or its entry, if it names the master of a raw mode pgpool
that is about to be replaced, or if a child brings the node up again.
-/

namespace PgPool

open Transition

namespace ParentState

section

variable (cfg : FailoverConfig) (s : ParentState)

/-- No degenerate request waits. -/
def NoneWaits : Prop := ∀ n ∈ s.owed, s.status n = .down

instance : Decidable s.NoneWaits := inferInstanceAs (Decidable (∀ n ∈ s.owed, _))

/-- The entry `i` names no node whose request waits, other than `nodeId`. -/
def FreeFor (i : Nat) (nodeId : Int) : Prop :=
  ∀ n ∈ s.owed, s.status n ≠ .down → s.reqInfo.nodeId i = n → nodeId = n

instance (i : Nat) (nodeId : Int) : Decidable (s.FreeFor i nodeId) :=
  inferInstanceAs (Decidable (∀ n ∈ s.owed, _))

/-- The parent does not save a new master while requests wait that were sent to the old one, which a
raw mode pgpool does not degenerate any more. -/
def KeepsMaster : FailoverPhase → Prop
  | .finishing _ _ _ newMaster =>
      cfg.rawMode = true → 0 ≤ newMaster → newMaster ≠ s.reqInfo.masterNodeId → s.NoneWaits
  | _ => True

/-- The health check finds its kind still in the mailbox, and the node is one that can be taken
down. -/
def ReportsNode : FailoverPhase → Prop
  | .reporting sts =>
      s.reqInfo.kind = .nodeDown ∧ (cfg.rawMode = true → sts = s.reqInfo.masterNodeId) ∧
        s.FreeFor 0 sts
  | _ => True

/-- The step leaves the degenerate requests that wait alone. -/
def LeavesRequests : ParentEvent cfg → Prop
  | .degenerateBackendSet view nodeIdSet =>
      ∀ p ∈ s.downEntries cfg view nodeIdSet, s.FreeFor p.1 p.2
  | .promoteBackend view nodeId => s.validFor cfg view nodeId = true → s.NoneWaits
  | .failbackKind | .closeIdle => s.NoneWaits
  | .failbackNodeId nodeId => s.FreeFor 0 nodeId
  | .startRecovery view recoveryNode => s.validFor cfg view recoveryNode = false → s.NoneWaits
  | .newConnection i => i ∈ s.owed → s.status i ≠ .down
  | .healthCheckNodeId => s.ReportsNode cfg s.phase
  | .saveNodeIds => s.KeepsMaster cfg s.phase
  | _ => True

/-- A run of `failover()` that has not looked at the mailbox yet is under way or will be. -/
def Coming : Prop :=
  match s.phase with
  | .waiting | .checking | .reporting _ | .finishing .healthCheck _ _ _ | .returned .healthCheck =>
      s.signalPending = true ∨ s.failoverRequest = true
  | .finishing .checkRequest _ _ _ | .returned .checkRequest => s.signalPending = true
  | .called _ | .locked _ | .tested _ _ => True
  | .chosen _ _ _ _ | .searching _ _ _ _ _ => False

/-- The node is named by the mailbox, and will be taken down. -/
structure Standing (n : Int) : Prop where
  kind : s.reqInfo.kind = .nodeDown
  entry : ∃ i, i < maxNumBackends ∧ s.reqInfo.nodeId i = n
  master : cfg.rawMode = true → n = s.reqInfo.masterNodeId
  coming : s.Coming

/-- The node ids that the parent works with. -/
def PhaseInRange : FailoverPhase → Prop
  | .reporting sts => cfg.IsNode sts
  | .chosen _ _ _ newMaster | .searching _ _ _ newMaster _ | .finishing _ _ _ newMaster =>
      newMaster < cfg.numBackends
  | _ => True

/-- What every step keeps: a request that has not been served is still in the mailbox, and somebody
will look there. -/
structure Delivered : Prop where
  master : s.reqInfo.masterNodeId < cfg.numBackends
  phase : PhaseInRange cfg s.phase
  status : ∀ n, cfg.IsNode n → s.status n ≠ .unused
  owed : ∀ n ∈ s.owed, cfg.IsNode n
  standing : ∀ n ∈ s.owed, s.status n ≠ .down → s.Standing cfg n

/-- All signals have been handled, and the parent is not in `failover()`. -/
structure Settled : Prop where
  signalPending : s.signalPending = false
  failoverRequest : s.failoverRequest = false
  phase : s.phase = .waiting

end

variable {cfg : FailoverConfig} {s t : ParentState} {e : ParentEvent cfg} {n m : Int}
  {nodes : List Int} {view : View cfg} {caller : Caller} {nodeId : Int}

/-! ## The parts of a step -/

theorem mem_setDown {status : Int → BackendStatus} :
    setDown status nodes n = .down ↔ n ∈ nodes ∨ status n = .down := by
  unfold setDown
  split
  · simp [*]
  · simp [*]

theorem setDown_ne_unused {status : Int → BackendStatus} (h : status n ≠ .unused) :
    setDown status nodes n ≠ .unused := by
  unfold setDown
  split
  · simp
  · exact h

theorem getNextMasterNode_lt : s.getNextMasterNode cfg < cfg.numBackends := by
  unfold getNextMasterNode
  cases h : cfg.nodes.find? fun i =>
      if cfg.rawMode then s.status i == .connectWait else s.valid cfg i with
  | none =>
    rw [Option.getD_none]
    omega
  | some i =>
    have hmem := List.mem_of_find?_eq_some h
    obtain ⟨k, hk, rfl⟩ := List.mem_map.1 hmem
    have := List.mem_range.1 hk
    rw [Option.getD_some]
    simp only [Int.ofNat_eq_natCast]
    omega

theorem isNode_of_accepts (hmaster : s.reqInfo.masterNodeId < cfg.numBackends)
    (hrange : outOfRange n = false) (hvalid : s.validFor cfg view n = true) : cfg.IsNode n := by
  have hpos : 0 ≤ n := by
    simp only [outOfRange, Bool.or_eq_false_iff, decide_eq_false_iff_not] at hrange
    omega
  by_contra hnot
  have hunused := view.unused n hnot
  have hne : n ≠ s.reqInfo.masterNodeId := by
    intro h
    exact hnot ⟨hpos, h ▸ hmaster⟩
  simp [validFor, FailoverConfig.validBackend, hunused, hne, BackendStatus.isUp] at hvalid

theorem validFor_raw (hraw : cfg.rawMode = true) (hvalid : s.validFor cfg view n = true) :
    n = s.reqInfo.masterNodeId := by
  unfold validFor FailoverConfig.validBackend at hvalid
  simp only [hraw, Bool.true_and, if_true, Bool.or_eq_true, beq_iff_eq, Bool.and_eq_true] at hvalid
  obtain h | ⟨h, -⟩ := hvalid
  · exact h
  · exact h

/-- A node whose request waits is still valid for the parent. -/
theorem valid_of_standing (hstatus : s.status n ≠ .unused) (hdown : s.status n ≠ .down)
    (hmaster : cfg.rawMode = true → n = s.reqInfo.masterNodeId) : s.valid cfg n = true := by
  have hup : (s.status n).isUp = true := by
    cases h : s.status n <;> simp_all [BackendStatus.isUp]
  unfold valid FailoverConfig.validBackend
  cases hraw : cfg.rawMode with
  | true => simp [hmaster hraw]
  | false => simp [hup]

theorem mem_entries {i : Nat} (h : i < maxNumBackends) : s.reqInfo.nodeId i ∈ s.entries :=
  List.mem_map.2 ⟨i, List.mem_range.2 h, rfl⟩

theorem Delivered.mem_downNodes (h : s.Delivered cfg) (hn : n ∈ s.owed) (hdown : s.status n ≠ .down) :
    n ∈ s.downNodes cfg := by
  obtain ⟨-, ⟨i, hi, hentry⟩, hmaster, -⟩ := h.standing n hn hdown
  have hnode := h.owed n hn
  refine List.mem_filter.2 ⟨hentry ▸ mem_entries hi, ?_⟩
  have hne : n ≠ -1 := by
    have := hnode.1
    omega
  simp [hne, valid_of_standing (h.status n hnode) hdown hmaster]

/-! ## Entries of the mailbox -/

/-- Entries that are written at different places: each is found there, and the others stay. -/
theorem writeNodeIds_spec {f : Nat → Int} {entries : List (Nat × Int)}
    (hnodup : (entries.map Prod.fst).Nodup) :
    (∀ p ∈ entries, writeNodeIds f entries p.1 = p.2) ∧
      ∀ i, i ∉ entries.map Prod.fst → writeNodeIds f entries i = f i := by
  induction entries generalizing f with
  | nil => exact ⟨by simp, fun i _ => rfl⟩
  | cons q rest ih =>
    obtain ⟨hq, hrest⟩ := List.nodup_cons.1 hnodup
    obtain ⟨hmem, hother⟩ := ih (f := Function.update f q.1 q.2) hrest
    constructor
    · intro p hp
      rcases List.mem_cons.1 hp with rfl | hp
      · change writeNodeIds (Function.update f p.1 p.2) rest p.1 = p.2
        rw [hother p.1 hq, Function.update_self]
      · exact hmem p hp
    · intro i hi
      have hne : i ≠ q.1 := fun h => hi (h ▸ List.mem_cons_self ..)
      change writeNodeIds (Function.update f q.1 q.2) rest i = f i
      rw [hother i fun h => hi (List.mem_cons_of_mem _ h), Function.update_of_ne hne]

theorem nodup_downEntries (nodeIdSet : List Int) :
    ((s.downEntries cfg view nodeIdSet).map Prod.fst).Nodup := by
  have hfst : (s.downEntries cfg view nodeIdSet).map Prod.fst =
      (nodeIdSet.zipIdx.filter fun p => s.acceptsDown cfg view p.1).map Prod.snd := by
    simp [downEntries, Function.comp_def]
  have hall : (nodeIdSet.zipIdx.map Prod.snd).Nodup := by
    rw [List.zipIdx_map_snd]
    exact List.nodup_range'
  rw [hfst]
  exact hall.sublist (List.filter_sublist.map _)

theorem of_mem_downEntries {p : Nat × Int} {nodeIdSet : List Int}
    (hp : p ∈ s.downEntries cfg view nodeIdSet) :
    p.1 < nodeIdSet.length ∧ s.acceptsDown cfg view p.2 = true := by
  obtain ⟨q, hq, rfl⟩ := List.mem_map.1 hp
  obtain ⟨hmem, hacc⟩ := List.mem_filter.1 hq
  exact ⟨(List.mem_zipIdx' hmem).1, hacc⟩

/-- An entry survives a write that is free for it. -/
theorem entry_update (hfree : s.FreeFor 0 nodeId) (hn : n ∈ s.owed) (hdown : s.status n ≠ .down)
    (hentry : ∃ i, i < maxNumBackends ∧ s.reqInfo.nodeId i = n) :
    ∃ i, i < maxNumBackends ∧ Function.update s.reqInfo.nodeId 0 nodeId i = n := by
  obtain ⟨i, hi, hin⟩ := hentry
  refine ⟨i, hi, ?_⟩
  by_cases h0 : i = 0
  · subst h0
    rw [Function.update_self]
    exact hfree n hn hdown hin
  · rw [Function.update_of_ne h0]
    exact hin

/-! ## Signals -/

theorem Coming.mono (h : s.Coming) (hphase : t.phase = s.phase)
    (hsignal : s.signalPending = true → t.signalPending = true)
    (hrequest : s.failoverRequest = true → t.failoverRequest = true) : t.Coming := by
  unfold Coming at h ⊢
  rw [hphase]
  split at h
  · exact h.imp hsignal hrequest
  · exact h.imp hsignal hrequest
  · exact h.imp hsignal hrequest
  · exact h.imp hsignal hrequest
  · exact h.imp hsignal hrequest
  · exact hsignal h
  · exact hsignal h
  · trivial
  · trivial
  · trivial
  · exact h
  · exact h

/-- A signal that arrives while the semaphore is free is not lost. -/
theorem coming_of_signal (hholds : s.phase.holds = false) (hphase : t.phase = s.phase)
    (hsignal : t.signalPending = true) : t.Coming := by
  unfold Coming
  rw [hphase]
  cases hp : s.phase with
  | locked _ => simp [hp, FailoverPhase.holds] at hholds
  | tested _ _ => simp [hp, FailoverPhase.holds] at hholds
  | chosen _ _ _ _ => simp [hp, FailoverPhase.holds] at hholds
  | searching _ _ _ _ _ => simp [hp, FailoverPhase.holds] at hholds
  | called _ => trivial
  | waiting => exact Or.inl hsignal
  | checking => exact Or.inl hsignal
  | reporting _ => exact Or.inl hsignal
  | finishing caller _ _ _ =>
    cases caller with
    | checkRequest => exact hsignal
    | healthCheck => exact Or.inl hsignal
  | returned caller =>
    cases caller with
    | checkRequest => exact hsignal
    | healthCheck => exact Or.inl hsignal

/-! ## Steps -/

/-- A step that leaves the requests, the statuses and the master alone keeps what waits, if it keeps
somebody coming. -/
theorem Delivered.frame (h : s.Delivered cfg) (hmaster : t.reqInfo.masterNodeId = s.reqInfo.masterNodeId)
    (hstatus : t.status = s.status) (howed : t.owed = s.owed) (hphase : PhaseInRange cfg t.phase)
    (hstanding : ∀ n ∈ s.owed, s.status n ≠ .down →
      t.reqInfo.kind = .nodeDown ∧ (∃ i, i < maxNumBackends ∧ t.reqInfo.nodeId i = n) ∧ t.Coming) :
    t.Delivered cfg := by
  refine ⟨hmaster ▸ h.master, hphase, ?_, ?_, ?_⟩
  · rw [hstatus]
    exact h.status
  · rw [howed]
    exact h.owed
  · rw [hstatus, howed]
    intro n hn hdown
    obtain ⟨hkind, hentry, hcoming⟩ := hstanding n hn hdown
    exact ⟨hkind, hentry, hmaster ▸ (h.standing n hn hdown).master, hcoming⟩

/-- The same, for a step that only moves the parent on. -/
theorem Delivered.move (h : s.Delivered cfg) (hreq : t.reqInfo = s.reqInfo)
    (hstatus : t.status = s.status) (howed : t.owed = s.owed) (hphase : PhaseInRange cfg t.phase)
    (hcoming : ∀ n ∈ s.owed, s.status n ≠ .down → s.Coming → t.Coming) : t.Delivered cfg := by
  refine h.frame (by rw [hreq]) hstatus howed hphase fun n hn hdown => ?_
  obtain ⟨hkind, hentry, -, hc⟩ := h.standing n hn hdown
  rw [hreq]
  exact ⟨hkind, hentry, hcoming n hn hdown hc⟩

/-- The same, where no request waits. -/
theorem Delivered.of_noneWaits (h : s.Delivered cfg) (hnone : s.NoneWaits)
    (hmaster : t.reqInfo.masterNodeId = s.reqInfo.masterNodeId) (hstatus : t.status = s.status)
    (howed : t.owed = s.owed) (hphase : PhaseInRange cfg t.phase) : t.Delivered cfg :=
  h.frame hmaster hstatus howed hphase fun n hn hdown => absurd (hnone n hn) hdown

/-- In another kind of request, none waits. -/
theorem Delivered.noneWaits_of_kind (h : s.Delivered cfg) (hkind : s.reqInfo.kind ≠ .nodeDown) :
    s.NoneWaits := by
  intro n hn
  by_contra hdown
  exact hkind (h.standing n hn hdown).kind

theorem Delivered.noneWaits_of_not_coming (h : s.Delivered cfg) (hcoming : ¬ s.Coming) :
    s.NoneWaits := by
  intro n hn
  by_contra hdown
  exact hcoming (h.standing n hn hdown).coming

/-- What is accepted is in the mailbox, and the signal is sent. -/
theorem delivered_degenerateBackendSet (h : s.Delivered cfg) {nodeIdSet : List Int}
    (hholds : s.phase.holds = false) (hlen : nodeIdSet.length ≤ maxNumBackends)
    (hfree : ∀ p ∈ s.downEntries cfg view nodeIdSet, s.FreeFor p.1 p.2) :
    (s.degenerateBackendSet cfg view nodeIdSet).Delivered cfg := by
  unfold degenerateBackendSet
  split
  · exact h
  have hnodup : ((s.downEntries cfg view nodeIdSet).map Prod.fst).Nodup := nodup_downEntries nodeIdSet
  obtain ⟨hmem, hother⟩ := writeNodeIds_spec (f := s.reqInfo.nodeId) hnodup
  have hnode : ∀ p ∈ s.downEntries cfg view nodeIdSet,
      cfg.IsNode p.2 ∧ (cfg.rawMode = true → p.2 = s.reqInfo.masterNodeId) := by
    intro p hp
    obtain ⟨-, hacc⟩ := of_mem_downEntries hp
    simp only [acceptsDown, Bool.and_eq_true, Bool.not_eq_true'] at hacc
    exact ⟨isNode_of_accepts h.master hacc.1.1 hacc.1.2, fun hraw => validFor_raw hraw hacc.1.2⟩
  -- an entry that a call finds there stays, or is written again
  have hentry : ∀ n ∈ s.owed, s.status n ≠ .down → ∃ i, i < maxNumBackends ∧
      writeNodeIds s.reqInfo.nodeId (s.downEntries cfg view nodeIdSet) i = n := by
    intro n hn hdown
    obtain ⟨i, hi, hin⟩ := (h.standing n hn hdown).entry
    refine ⟨i, hi, ?_⟩
    by_cases hwritten : i ∈ (s.downEntries cfg view nodeIdSet).map Prod.fst
    · obtain ⟨p, hp, rfl⟩ := List.mem_map.1 hwritten
      rw [hmem p hp]
      exact hfree p hp n hn hdown hin
    · rw [hother i hwritten]
      exact hin
  refine ⟨h.master, h.phase, h.status, ?_, ?_⟩
  · intro n hn
    rcases List.mem_append.1 hn with hn | hn
    · obtain ⟨p, hp, rfl⟩ := List.mem_map.1 hn
      exact (hnode p hp).1
    · exact h.owed n hn
  · intro n hn hdown
    rcases List.mem_append.1 hn with hn | hn
    · obtain ⟨p, hp, rfl⟩ := List.mem_map.1 hn
      have hlt := (of_mem_downEntries hp).1
      have hsignal : (s.signalPending || !(s.downEntries cfg view nodeIdSet).isEmpty) = true := by
        cases hl : s.downEntries cfg view nodeIdSet with
        | nil => simp [hl] at hp
        | cons q rest => simp
      refine ⟨rfl, ⟨p.1, by omega, hmem p hp⟩, (hnode p hp).2, ?_⟩
      exact coming_of_signal hholds rfl hsignal
    · obtain ⟨hkind, -, hmaster, hcoming⟩ := h.standing n hn hdown
      refine ⟨rfl, hentry n hn hdown, hmaster, hcoming.mono rfl ?_ id⟩
      intro hpending
      exact Bool.or_eq_true_iff.2 (Or.inl hpending)

theorem delivered_promoteBackend (h : s.Delivered cfg)
    (hnone : s.validFor cfg view nodeId = true → s.NoneWaits) :
    (s.promoteBackend cfg view nodeId).Delivered cfg := by
  unfold promoteBackend
  split
  · split
    · exact h
    · by_cases hvalid : s.validFor cfg view nodeId = true
      · have ht : ({ s with used := s.used ++ cfg.validBackendUses view.sent nodeId } :
            ParentState).validFor cfg view nodeId = true := hvalid
        simp only [ht, if_true]
        exact h.of_noneWaits (hnone hvalid) rfl rfl rfl h.phase
      · have ht : ¬ ({ s with used := s.used ++ cfg.validBackendUses view.sent nodeId } :
            ParentState).validFor cfg view nodeId = true := hvalid
        simp only [ht]
        exact h.move rfl rfl rfl h.phase fun _ _ _ hc => hc.mono rfl id id
  · exact h

theorem delivered_failbackSignal (h : s.Delivered cfg) :
    (s.failbackSignal cfg view nodeId).Delivered cfg := by
  unfold failbackSignal
  split
  · exact h
  · split
    · refine h.move rfl rfl rfl h.phase fun _ _ _ hc => hc.mono rfl ?_ id
      intro hpending
      exact Bool.or_eq_true_iff.2 (Or.inl hpending)
    · exact h.move rfl rfl rfl h.phase fun _ _ _ hc => hc.mono rfl (fun _ => rfl) id

theorem delivered_startRecovery (h : s.Delivered cfg)
    (hnone : s.validFor cfg view nodeId = false → s.NoneWaits) :
    (s.startRecovery cfg view nodeId).Delivered cfg := by
  have hsame : ({ s with used := s.used ++ cfg.validBackendUses view.sent nodeId } :
      ParentState).validFor cfg view nodeId = s.validFor cfg view nodeId := rfl
  unfold startRecovery
  simp only [hsame]
  cases hvalid : s.validFor cfg view nodeId with
  | true => exact h.move rfl rfl rfl h.phase fun _ _ _ hc => hc.mono rfl id id
  | false => exact h.of_noneWaits (hnone hvalid) rfl rfl rfl h.phase

/-- A child brings a node up. -/
theorem delivered_newConnection (h : s.Delivered cfg) (hkeeps : n ∈ s.owed → s.status n ≠ .down) :
    ({ s with status := Function.update s.status n .up } : ParentState).Delivered cfg := by
  refine ⟨h.master, h.phase, ?_, h.owed, ?_⟩
  · intro i hi
    by_cases hin : i = n
    · subst hin
      simp
    · simpa [Function.update_of_ne hin] using h.status i hi
  · intro i hi hdown
    have hdown' : s.status i ≠ .down := by
      by_cases hin : i = n
      · subst hin
        exact hkeeps hi
      · simpa [Function.update_of_ne hin] using hdown
    obtain ⟨hkind, hentry, hmaster, hcoming⟩ := h.standing i hi hdown'
    exact ⟨hkind, hentry, hmaster, hcoming.mono rfl id id⟩

theorem delivered_healthCheckNodeId (h : s.Delivered cfg) (hphase : s.phase = .reporting n)
    (hreports : s.ReportsNode cfg s.phase) :
    ({ s with
        reqInfo := { s.reqInfo with nodeId := Function.update s.reqInfo.nodeId 0 n }
        phase := .called .healthCheck
        accepted := n :: s.accepted
        owed := n :: s.owed } : ParentState).Delivered cfg := by
  rw [hphase] at hreports
  obtain ⟨hkind, hraw, hfree⟩ := hreports
  have hnode : cfg.IsNode n := by
    have := h.phase
    rw [hphase] at this
    exact this
  refine ⟨h.master, trivial, h.status, ?_, ?_⟩
  · intro i hi
    rcases List.mem_cons.1 hi with rfl | hi
    · exact hnode
    · exact h.owed i hi
  · intro i hi hdown
    rcases List.mem_cons.1 hi with rfl | hi
    · refine ⟨hkind, ⟨0, by decide, ?_⟩, hraw, trivial⟩
      change Function.update s.reqInfo.nodeId 0 i 0 = i
      exact Function.update_self ..
    · obtain ⟨-, hentry, hmaster, -⟩ := h.standing i hi hdown
      exact ⟨hkind, entry_update hfree hi hdown hentry, hmaster, trivial⟩

theorem delivered_lock (h : s.Delivered cfg) : (s.lock caller).Delivered cfg := by
  unfold lock
  split
  · rename_i hkind
    have hnone : s.NoneWaits := h.noneWaits_of_kind (by simp [hkind])
    exact h.of_noneWaits hnone rfl rfl rfl trivial
  · exact h.move rfl rfl rfl trivial fun _ _ _ _ => trivial

theorem delivered_chooseMaster (h : s.Delivered cfg) (hnone : s.NoneWaits) :
    (s.chooseMaster cfg caller nodeId nodes).Delivered cfg :=
  h.of_noneWaits hnone rfl rfl rfl getNextMasterNode_lt

/-- A failback attaches its node again. -/
theorem delivered_testFailback (h : s.Delivered cfg) :
    (s.testFailback cfg caller).Delivered cfg := by
  unfold testFailback
  by_cases hkind : s.reqInfo.kind = .nodeUp
  · have hnone : s.NoneWaits := h.noneWaits_of_kind (by simp [hkind])
    simp only [hkind, if_true]
    split
    · exact h.of_noneWaits hnone rfl rfl rfl trivial
    · split
      · exact h.of_noneWaits hnone rfl rfl rfl trivial
      · generalize s.reqInfo.nodeId 0 = i
        have hattached : ∀ n ∈ s.owed.filter (· != i), Function.update s.status i .connectWait n = .down := by
          intro n hn
          obtain ⟨hn, hne⟩ := List.mem_filter.1 hn
          rw [Function.update_of_ne (by simpa using hne)]
          exact hnone n hn
        refine delivered_chooseMaster ⟨h.master, h.phase, ?_, ?_, ?_⟩ hattached
        · intro n hn
          by_cases hni : n = i
          · subst hni
            simp
          · simpa [Function.update_of_ne hni] using h.status n hn
        · intro n hn
          exact h.owed n (List.mem_of_mem_filter hn)
        · intro n hn hdown
          exact absurd (hattached n hn) hdown
  · simp only [if_neg hkind]
    by_cases hnone : s.NoneWaits
    · exact h.of_noneWaits hnone rfl rfl rfl trivial
    · exact h.move rfl rfl rfl trivial fun _ _ _ _ => trivial

/-- Every node that waits is taken down. -/
theorem delivered_dispatch (h : s.Delivered cfg) : (s.dispatch cfg caller nodeId).Delivered cfg := by
  unfold dispatch
  by_cases hkind : s.reqInfo.kind = .promoteNode
  · have hnone : s.NoneWaits := h.noneWaits_of_kind (by simp [hkind])
    simp only [hkind, if_true]
    split
    · exact h.of_noneWaits hnone rfl rfl rfl trivial
    · have hused : ({ s with used := s.used ++ [nodeId] } : ParentState).Delivered cfg :=
        h.of_noneWaits hnone rfl rfl rfl h.phase
      split
      · exact delivered_chooseMaster hused hnone
      · exact h.of_noneWaits hnone rfl rfl rfl trivial
  · simp only [if_neg hkind]
    have hserved : ∀ n ∈ s.owed, setDown s.status (s.downNodes cfg) n = .down := by
      intro n hn
      by_cases hdown : s.status n = .down
      · exact mem_setDown.2 (Or.inr hdown)
      · exact mem_setDown.2 (Or.inl (h.mem_downNodes hn hdown))
    have hall : ∀ used phase, PhaseInRange cfg phase →
        ({ s with status := setDown s.status (s.downNodes cfg), used := used, phase := phase } :
          ParentState).Delivered cfg := by
      intro used phase hphase
      refine ⟨h.master, hphase, ?_, h.owed, ?_⟩
      · intro n hn
        exact setDown_ne_unused (h.status n hn)
      · intro n hn hdown
        exact absurd (hserved n hn) hdown
    split
    · exact hall _ _ trivial
    · exact delivered_chooseMaster (hall _ _ h.phase) hserved

theorem delivered_followPrimary (h : s.Delivered cfg) {newMaster newPrimary : Int} {below : Bool}
    (hphase : newMaster < cfg.numBackends) (hcoming : ¬ s.Coming) :
    (s.followPrimary cfg caller nodeId nodes newMaster newPrimary below).Delivered cfg := by
  have hnone := h.noneWaits_of_not_coming hcoming
  unfold followPrimary
  generalize (if s.followDegenerates cfg nodeId nodes below then followers cfg newPrimary else []) =
    follow
  have hdown : ∀ n ∈ s.owed, setDown s.status follow n = .down := by
    intro n hn
    exact mem_setDown.2 (Or.inr (hnone n hn))
  refine ⟨h.master, ?_, ?_, h.owed, ?_⟩
  · change (if follow = [] then newMaster else _) < _
    split
    · exact hphase
    · exact getNextMasterNode_lt
  · intro n hn
    exact setDown_ne_unused (h.status n hn)
  · intro n hn hne
    exact absurd (hdown n hn) hne

theorem delivered_saveNodeIds (h : s.Delivered cfg) {newPrimary newMaster : Int}
    (hphase : s.phase = .finishing caller nodeId newPrimary newMaster)
    (hkeeps : s.KeepsMaster cfg s.phase) :
    (s.saveNodeIds caller nodeId newPrimary newMaster).Delivered cfg := by
  have hlt : newMaster < cfg.numBackends := by
    have := h.phase
    rw [hphase] at this
    exact this
  rw [hphase] at hkeeps
  refine ⟨?_, trivial, h.status, h.owed, ?_⟩
  · change (if 0 ≤ newMaster then newMaster else _) < _
    split
    · exact hlt
    · exact h.master
  · intro n hn hdown
    obtain ⟨hkind, hentry, hmaster, hcoming⟩ := h.standing n hn hdown
    refine ⟨hkind, hentry, ?_, ?_⟩
    · intro hraw
      change n = if 0 ≤ newMaster then newMaster else s.reqInfo.masterNodeId
      split
      · rename_i hpos
        rw [hmaster hraw]
        by_contra hne
        exact hdown (hkeeps hraw hpos (Ne.symm hne) n hn)
      · exact hmaster hraw
    · unfold Coming at hcoming ⊢
      rw [hphase] at hcoming
      cases caller with
      | checkRequest => exact hcoming
      | healthCheck => exact hcoming

theorem delivered_clearRequest (h : s.Delivered cfg) (hphase : s.phase = .returned caller) :
    (s.clearRequest caller).Delivered cfg := by
  cases caller with
  | checkRequest =>
    refine h.move rfl rfl rfl trivial fun _ _ _ hc => ?_
    unfold Coming at hc ⊢
    rw [hphase] at hc
    exact Or.inl hc
  | healthCheck =>
    refine h.move rfl rfl rfl trivial fun _ _ _ hc => ?_
    unfold Coming at hc ⊢
    rw [hphase] at hc
    exact hc

/-- What one step keeps. -/
theorem delivered_step (h : s.Delivered cfg) (hleaves : s.LeavesRequests cfg e)
    (hstep : step cfg s e = some t) : t.Delivered cfg := by
  cases stepped_of_step hstep with
  | degenerateBackendSet view nodeIdSet free few =>
    exact delivered_degenerateBackendSet h free few hleaves
  | promoteBackend => exact delivered_promoteBackend h hleaves
  | failbackKind => exact h.of_noneWaits hleaves rfl rfl rfl h.phase
  | failbackNodeId nodeId =>
    refine h.frame rfl rfl rfl h.phase fun n hn hdown => ?_
    obtain ⟨hkind, hentry, -, hcoming⟩ := h.standing n hn hdown
    exact ⟨hkind, entry_update hleaves hn hdown hentry, hcoming.mono rfl id id⟩
  | failbackSignal => exact delivered_failbackSignal h
  | closeIdle => exact h.of_noneWaits hleaves rfl rfl rfl h.phase
  | signal => exact h.move rfl rfl rfl h.phase fun _ _ _ hc => hc.mono rfl (fun _ => rfl) id
  | startRecovery => exact delivered_startRecovery h hleaves
  | newConnection => exact delivered_newConnection h hleaves
  | failoverHandler signalled letsIn =>
    refine h.move rfl rfl rfl h.phase fun _ _ _ hc => ?_
    unfold Coming at hc ⊢
    cases hphase : s.phase with
    | waiting => exact Or.inr rfl
    | searching =>
      simp only [hphase] at hc
    | _ => simp [hphase, FailoverPhase.letsIn] at letsIn
  | wakeUp phase =>
    refine h.move rfl rfl rfl trivial fun _ _ _ hc => ?_
    unfold Coming at hc ⊢
    rw [phase] at hc
    exact hc
  | checkRequest phase =>
    cases hrequest : s.failoverRequest with
    | true => exact h.move rfl rfl rfl trivial fun _ _ _ _ => trivial
    | false =>
      refine h.move rfl rfl rfl trivial fun _ _ _ hc => ?_
      unfold Coming at hc ⊢
      rw [phase, hrequest] at hc
      exact hc
  | healthCheckFailed sts phase finds =>
    simp only [healthCheckFinds, Bool.and_eq_true, decide_eq_true_eq] at finds
    refine h.frame rfl rfl rfl finds.1.1 fun n hn hdown => ?_
    obtain ⟨-, hentry, -, hcoming⟩ := h.standing n hn hdown
    refine ⟨rfl, hentry, ?_⟩
    unfold Coming at hcoming ⊢
    rw [phase] at hcoming
    exact hcoming
  | healthCheckNodeId phase => exact delivered_healthCheckNodeId h phase hleaves
  | lock => exact delivered_lock h
  | testFailback => exact delivered_testFailback h
  | dispatch => exact delivered_dispatch h
  | choosePrimary phase =>
    have hrange := h.phase
    rw [phase] at hrange
    refine h.move rfl rfl rfl hrange fun _ _ _ hc => ?_
    unfold Coming at hc
    rw [phase] at hc
    exact hc.elim
  | checkRequestAgain phase =>
    refine h.move rfl rfl rfl h.phase fun _ _ _ hc => ?_
    unfold Coming at hc
    rw [phase] at hc
    exact hc.elim
  | followPrimary found below phase primary =>
    have hrange := h.phase
    rw [phase] at hrange
    refine delivered_followPrimary h hrange ?_
    unfold Coming
    rw [phase]
    exact id
  | saveNodeIds phase => exact delivered_saveNodeIds h phase hleaves
  | clearRequest phase => exact delivered_clearRequest h phase

theorem Started.delivered (h : s.Started cfg) : s.Delivered cfg := by
  refine ⟨?_, ?_, ?_, ?_, ?_⟩
  · rw [h.masterNodeId]
    exact getNextMasterNode_lt
  · rw [h.phase]
    trivial
  · intro n hn
    rcases h.status n hn with hs | hs
    · simp [hs]
    · simp [hs]
  · simp [h.owed]
  · simp [h.owed]

instance : (phase : FailoverPhase) → Decidable (s.KeepsMaster cfg phase)
  | .finishing _ _ _ _ => inferInstanceAs (Decidable (_ → _ → _ → s.NoneWaits))
  | .waiting | .checking | .reporting _ | .called _ | .locked _ | .tested _ _ | .chosen _ _ _ _
  | .searching _ _ _ _ _ | .returned _ => isTrue trivial

instance : (phase : FailoverPhase) → Decidable (s.ReportsNode cfg phase)
  | .reporting sts => inferInstanceAs (Decidable (_ ∧ (_ → _) ∧ s.FreeFor 0 sts))
  | .waiting | .checking | .called _ | .locked _ | .tested _ _ | .chosen _ _ _ _
  | .searching _ _ _ _ _ | .finishing _ _ _ _ | .returned _ => isTrue trivial

instance : (e : ParentEvent cfg) → Decidable (s.LeavesRequests cfg e)
  | .degenerateBackendSet view nodeIdSet =>
      inferInstanceAs (Decidable (∀ p ∈ s.downEntries cfg view nodeIdSet, s.FreeFor p.1 p.2))
  | .promoteBackend _ _ | .startRecovery _ _ => inferInstanceAs (Decidable (_ → s.NoneWaits))
  | .failbackKind | .closeIdle => inferInstanceAs (Decidable s.NoneWaits)
  | .failbackNodeId nodeId => inferInstanceAs (Decidable (s.FreeFor 0 nodeId))
  | .newConnection i => inferInstanceAs (Decidable (i ∈ s.owed → s.status i ≠ .down))
  | .healthCheckNodeId => inferInstanceAs (Decidable (s.ReportsNode cfg s.phase))
  | .saveNodeIds => inferInstanceAs (Decidable (s.KeepsMaster cfg s.phase))
  | .failbackSignal _ _ | .signal | .failoverHandler | .wakeUp | .checkRequest
  | .healthCheckFailed _ | .lock | .testFailback | .dispatch | .choosePrimary | .checkRequestAgain
  | .followPrimary _ _ | .clearRequest => isTrue trivial

instance : Decidable t.Settled :=
  decidable_of_iff (t.signalPending = false ∧ t.failoverRequest = false ∧ t.phase = .waiting)
    ⟨fun h => ⟨h.1, h.2.1, h.2.2⟩, fun h => ⟨h.signalPending, h.failoverRequest, h.phase⟩⟩

/-- A request of one child is served. -/
def oneRequest : List (ParentEvent replicas) :=
  [.degenerateBackendSet replicasUp [1], .failoverHandler] ++ runFailover

/-- Two children report different nodes before the parent gets to work. -/
def twoRequests : List (ParentEvent replicas) :=
  [.degenerateBackendSet replicasUp [1], .degenerateBackendSet replicasUp [2], .failoverHandler] ++
    runFailover

end ParentState

end PgPool
