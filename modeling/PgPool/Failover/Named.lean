import PgPool.Failover.Served

/-!
# Only what was asked for goes down

The entries of the mailbox are those of accepted degenerate requests, but for the first one, which
failback and promote requests write too.  What such a request leaves there must not be read under
another kind.
-/

namespace PgPool

open Transition

namespace ParentState

section

variable (cfg : FailoverConfig) (s : ParentState)

/-- `failover()` does not take the first entry for a node to be degenerated: the kind is another one,
or the entry will be written or cleared before it is read. -/
def tolerates : RequestKind → FailoverPhase → Bool
  | _, .reporting _ | _, .chosen _ _ _ _ | _, .searching _ _ _ _ _ => true
  | kind, .locked _ => kind == .nodeUp || kind == .promoteNode
  | kind, .tested _ _ => kind == .promoteNode
  | kind, _ => kind == .nodeUp || kind == .promoteNode || kind == .closeIdle

/-- A kind may be written: the first entry is empty or that of a degenerate request, or it does not
matter. -/
def ClearFor (kind : RequestKind) : Prop :=
  s.reqInfo.nodeId 0 = -1 ∨ s.reqInfo.nodeId 0 ∈ s.accepted ∨ tolerates kind s.phase = true

instance (kind : RequestKind) : Decidable (s.ClearFor kind) :=
  inferInstanceAs (Decidable (_ ∨ _ ∨ _))

/-- All of these are node ids. -/
def AreNodes (uses : List Int) : Prop := ∀ i ∈ uses, cfg.IsNode i

instance (uses : List Int) : Decidable (AreNodes cfg uses) :=
  inferInstanceAs (Decidable (∀ i ∈ uses, _))

/-- The request names a node where `failover()` takes that for granted. -/
def NamesNode : FailoverPhase → Prop
  | .tested _ nodeId => s.reqInfo.kind ≠ .promoteNode → nodeId = -1 → s.downNodes cfg = []
  | _ => True

/-- The step leaves no node id to be misread. -/
def WellAddressed : ParentEvent cfg → Prop
  | .degenerateBackendSet view nodeIdSet =>
      (∀ i ∈ nodeIdSet, outOfRange i = false → AreNodes cfg (cfg.validBackendUses view.sent i)) ∧
        (cfg.parallelMode = false → s.ClearFor .nodeDown ∨
          0 ∈ (s.downEntries cfg view nodeIdSet).map Prod.fst)
  | .promoteBackend view nodeId =>
      outOfRange nodeId = false → AreNodes cfg (cfg.validBackendUses view.sent nodeId)
  | .failbackKind => s.ClearFor .nodeUp
  | .failbackNodeId nodeId =>
      cfg.IsNode nodeId ∧ (nodeId ∈ s.accepted ∨ tolerates s.reqInfo.kind s.phase = true)
  | .failbackSignal _ nodeId => cfg.rawMode = true → outOfRange nodeId = false → cfg.IsNode nodeId
  | .closeIdle => s.ClearFor .closeIdle
  | .startRecovery view recoveryNode =>
      AreNodes cfg (cfg.validBackendUses view.sent recoveryNode) ∧
        (s.validFor cfg view recoveryNode = false → s.ClearFor .nodeRecovery)
  | .testFailback => s.reqInfo.kind = .nodeUp → s.reqInfo.nodeId 0 ≠ -1
  | .dispatch => s.NamesNode cfg s.phase
  | .followPrimary _ below => s.reqInfo.primaryNodeId < 0 → below = false
  | _ => True

/-- The node ids that the parent works with. -/
def PhaseNames : FailoverPhase → Prop
  | .reporting sts => cfg.IsNode sts
  | .tested _ nodeId => nodeId = -1 ∨ cfg.IsNode nodeId
  | .chosen _ nodeId _ newMaster | .searching _ nodeId _ newMaster _
  | .finishing _ nodeId _ newMaster => cfg.IsNode nodeId ∧ newMaster < cfg.numBackends
  | _ => True

/-- What every step keeps. -/
structure Named : Prop where
  master : s.reqInfo.masterNodeId < cfg.numBackends
  phase : PhaseNames cfg s.phase
  entries : ∀ i, s.reqInfo.nodeId i = -1 ∨ cfg.IsNode (s.reqInfo.nodeId i)
  named : ∀ i, s.reqInfo.nodeId i = -1 ∨ s.reqInfo.nodeId i ∈ s.accepted ∨
    (i = 0 ∧ tolerates s.reqInfo.kind s.phase = true)
  used : AreNodes cfg s.used

/-- The node is detached since it follows the old primary, and another one has been promoted or
found after the old primary went down. -/
def Detaches : ParentEvent cfg → FailoverPhase → Int → Prop
  | .followPrimary found _, .searching _ nodeId nodes _ promoted, i =>
      (s.reqInfo.kind = .promoteNode ∨ s.reqInfo.primaryNodeId ∈ nodes) ∧
        0 ≤ (if promoted then nodeId else found) ∧ i ≠ if promoted then nodeId else found
  | _, _, _ => False

end

variable {cfg : FailoverConfig} {s t : ParentState} {e : ParentEvent cfg} {n m : Int}
  {nodes uses uses' : List Int} {view : View cfg} {caller : Caller} {nodeId : Int}
  {kind : RequestKind}

theorem AreNodes.append (h : AreNodes cfg uses) (h' : AreNodes cfg uses') :
    AreNodes cfg (uses ++ uses') := by
  intro i hi
  rcases List.mem_append.1 hi with hi | hi
  · exact h i hi
  · exact h' i hi

theorem areNodes_singleton (h : cfg.IsNode n) : AreNodes cfg [n] := by
  intro i hi
  rw [List.mem_singleton.1 hi]
  exact h

theorem areNodes_nil : AreNodes cfg [] := by
  intro i hi
  cases hi

/-! ## Steps -/

/-- A step that changes neither the mailbox nor what is accepted. -/
theorem Named.move (h : s.Named cfg) (hreq : t.reqInfo = s.reqInfo) (haccepted : t.accepted = s.accepted)
    (hphase : PhaseNames cfg t.phase) (hused : AreNodes cfg t.used)
    (htolerates : tolerates s.reqInfo.kind s.phase = true → tolerates s.reqInfo.kind t.phase = true) :
    t.Named cfg := by
  refine ⟨hreq ▸ h.master, hphase, hreq ▸ h.entries, ?_, hused⟩
  intro i
  rw [hreq, haccepted]
  rcases h.named i with hi | hi | ⟨hi, htol⟩
  · exact Or.inl hi
  · exact Or.inr (Or.inl hi)
  · exact Or.inr (Or.inr ⟨hi, htolerates htol⟩)

/-- A step that writes another kind. -/
theorem Named.write (h : s.Named cfg) (hclear : s.ClearFor kind)
    (hreq : t.reqInfo = { s.reqInfo with kind := kind }) (hphase : t.phase = s.phase)
    (haccepted : t.accepted = s.accepted) (hused : AreNodes cfg t.used) : t.Named cfg := by
  refine ⟨hreq ▸ h.master, hphase ▸ h.phase, hreq ▸ h.entries, ?_, hused⟩
  intro i
  rw [hreq, hphase, haccepted]
  rcases h.named i with hi | hi | ⟨rfl, -⟩
  · exact Or.inl hi
  · exact Or.inr (Or.inl hi)
  · rcases hclear with hc | hc | hc
    · exact Or.inl hc
    · exact Or.inr (Or.inl hc)
    · exact Or.inr (Or.inr ⟨rfl, hc⟩)

/-- The first entry is written. -/
theorem Named.writeFirst (h : s.Named cfg) (hnode : cfg.IsNode nodeId)
    (hids : t.reqInfo.nodeId = Function.update s.reqInfo.nodeId 0 nodeId)
    (hmaster : t.reqInfo.masterNodeId = s.reqInfo.masterNodeId)
    (hphase : PhaseNames cfg t.phase) (haccepted : ∀ i ∈ s.accepted, i ∈ t.accepted)
    (hfirst : nodeId ∈ t.accepted ∨ tolerates t.reqInfo.kind t.phase = true)
    (hused : AreNodes cfg t.used) :
    t.Named cfg := by
  refine ⟨hmaster ▸ h.master, hphase, ?_, ?_, hused⟩
  · intro i
    rw [hids]
    by_cases hi : i = 0
    · subst hi
      rw [Function.update_self]
      exact Or.inr hnode
    · rw [Function.update_of_ne hi]
      exact h.entries i
  · intro i
    rw [hids]
    by_cases hi : i = 0
    · subst hi
      rw [Function.update_self]
      exact Or.inr (hfirst.imp_right fun htol => ⟨rfl, htol⟩)
    · rw [Function.update_of_ne hi]
      rcases h.named i with hn | hn | ⟨h0, -⟩
      · exact Or.inl hn
      · exact Or.inr (Or.inl (haccepted _ hn))
      · exact absurd h0 hi

theorem named_degenerateBackendSet (h : s.Named cfg) {nodeIdSet : List Int}
    (huses : ∀ i ∈ nodeIdSet, outOfRange i = false → AreNodes cfg (cfg.validBackendUses view.sent i))
    (hclear : cfg.parallelMode = false → s.ClearFor .nodeDown ∨
      0 ∈ (s.downEntries cfg view nodeIdSet).map Prod.fst) :
    (s.degenerateBackendSet cfg view nodeIdSet).Named cfg := by
  unfold degenerateBackendSet
  split
  · exact h
  rename_i hparallel
  have hclear := hclear (by simpa using hparallel)
  have hnodup : ((s.downEntries cfg view nodeIdSet).map Prod.fst).Nodup := nodup_downEntries nodeIdSet
  obtain ⟨hmem, hother⟩ := writeNodeIds_spec (f := s.reqInfo.nodeId) hnodup
  have hnode : ∀ p ∈ s.downEntries cfg view nodeIdSet, cfg.IsNode p.2 := by
    intro p hp
    obtain ⟨-, hacc⟩ := of_mem_downEntries hp
    simp only [acceptsDown, Bool.and_eq_true, Bool.not_eq_true'] at hacc
    exact isNode_of_accepts h.master hacc.1.1 hacc.1.2
  refine ⟨h.master, h.phase, ?_, ?_, ?_⟩
  · intro i
    change writeNodeIds _ _ i = -1 ∨ cfg.IsNode (writeNodeIds _ _ i)
    by_cases hwritten : i ∈ (s.downEntries cfg view nodeIdSet).map Prod.fst
    · obtain ⟨p, hp, rfl⟩ := List.mem_map.1 hwritten
      rw [hmem p hp]
      exact Or.inr (hnode p hp)
    · rw [hother i hwritten]
      exact h.entries i
  · intro i
    change writeNodeIds _ _ i = -1 ∨ writeNodeIds _ _ i ∈ _ ∨ _
    by_cases hwritten : i ∈ (s.downEntries cfg view nodeIdSet).map Prod.fst
    · obtain ⟨p, hp, rfl⟩ := List.mem_map.1 hwritten
      rw [hmem p hp]
      exact Or.inr (Or.inl (List.mem_append_left _ (List.mem_map_of_mem hp)))
    · rw [hother i hwritten]
      have hold : ∀ i, s.reqInfo.nodeId i ∈ s.accepted → s.reqInfo.nodeId i ∈
          (s.downEntries cfg view nodeIdSet).map Prod.snd ++ s.accepted :=
        fun _ hi => List.mem_append_right _ hi
      rcases h.named i with hi | hi | ⟨rfl, -⟩
      · exact Or.inl hi
      · exact Or.inr (Or.inl (hold i hi))
      · rcases hclear with (hc | hc | hc) | hc
        · exact Or.inl hc
        · exact Or.inr (Or.inl (hold 0 hc))
        · exact Or.inr (Or.inr ⟨rfl, hc⟩)
        · exact absurd hc hwritten
  · refine (h.used.append ?_).append ?_
    · intro i hi
      obtain ⟨j, hj, hij⟩ := List.mem_flatMap.1 hi
      obtain ⟨hj, hrange⟩ := List.mem_filter.1 hj
      exact huses j hj (by simpa using hrange) i hij
    · intro i hi
      obtain ⟨p, hp, rfl⟩ := List.mem_map.1 hi
      exact hnode p hp

theorem tolerates_promote (phase : FailoverPhase) : tolerates .promoteNode phase = true := by
  cases phase <;> rfl

theorem named_promoteBackend (h : s.Named cfg)
    (huses : outOfRange nodeId = false → AreNodes cfg (cfg.validBackendUses view.sent nodeId)) :
    (s.promoteBackend cfg view nodeId).Named cfg := by
  have hsame : ({ s with used := s.used ++ cfg.validBackendUses view.sent nodeId } :
      ParentState).validFor cfg view nodeId = s.validFor cfg view nodeId := rfl
  unfold promoteBackend
  split
  · split
    · exact h
    · rename_i hrange
      have hrange : outOfRange nodeId = false := by simpa using hrange
      have hused := h.used.append (huses hrange)
      simp only [hsame]
      split
      · rename_i hvalid
        have hnode := isNode_of_accepts h.master hrange hvalid
        exact h.writeFirst hnode rfl rfl h.phase (fun _ hi => hi) (Or.inr (tolerates_promote _)) hused
      · exact h.move rfl rfl h.phase hused id
  · exact h

theorem named_failbackSignal (h : s.Named cfg)
    (hnode : cfg.rawMode = true → outOfRange nodeId = false → cfg.IsNode nodeId) :
    (s.failbackSignal cfg view nodeId).Named cfg := by
  unfold failbackSignal
  split
  · exact h
  · rename_i hrange
    split
    · rename_i hraw
      have hnode := hnode hraw (by simpa using hrange)
      exact h.move rfl rfl h.phase (h.used.append (areNodes_singleton hnode)) id
    · exact h.move rfl rfl h.phase h.used id

theorem named_startRecovery (h : s.Named cfg)
    (huses : AreNodes cfg (cfg.validBackendUses view.sent nodeId))
    (hclear : s.validFor cfg view nodeId = false → s.ClearFor .nodeRecovery) :
    (s.startRecovery cfg view nodeId).Named cfg := by
  have hsame : ({ s with used := s.used ++ cfg.validBackendUses view.sent nodeId } :
      ParentState).validFor cfg view nodeId = s.validFor cfg view nodeId := rfl
  have hused := h.used.append huses
  unfold startRecovery
  simp only [hsame]
  cases hvalid : s.validFor cfg view nodeId with
  | true => exact h.move rfl rfl h.phase hused id
  | false => exact h.write (hclear hvalid) rfl rfl rfl hused

theorem named_lock (h : s.Named cfg) (hphase : s.phase = .called caller) :
    (s.lock caller).Named cfg := by
  unfold lock
  split
  · refine h.move rfl rfl trivial h.used ?_
    rw [hphase]
    exact id
  · rename_i hkind
    refine h.move rfl rfl trivial h.used ?_
    rw [hphase]
    intro htol
    simpa [tolerates, hkind] using htol

theorem named_chooseMaster (h : s.Named cfg) (hnode : cfg.IsNode nodeId) :
    (s.chooseMaster cfg caller nodeId nodes).Named cfg :=
  h.move rfl rfl ⟨hnode, getNextMasterNode_lt⟩ h.used fun _ => rfl

theorem named_testFailback (h : s.Named cfg) (hphase : s.phase = .locked caller)
    (hnot : s.reqInfo.kind = .nodeUp → s.reqInfo.nodeId 0 ≠ -1) :
    (s.testFailback cfg caller).Named cfg := by
  have hfirst := h.entries 0
  unfold testFailback
  by_cases hkind : s.reqInfo.kind = .nodeUp
  · have hnode : cfg.IsNode (s.reqInfo.nodeId 0) := hfirst.resolve_left (hnot hkind)
    have hused := h.used.append (areNodes_singleton hnode)
    have hreturn : ({ s with
        phase := .returned caller
        used := s.used ++ [s.reqInfo.nodeId 0] } : ParentState).Named cfg := by
      refine h.move rfl rfl trivial hused ?_
      rw [hkind]
      exact fun _ => rfl
    simp only [hkind, if_true]
    split
    · exact hreturn
    · split
      · exact hreturn
      · exact named_chooseMaster (h.move rfl rfl h.phase hused id) hnode
  · simp only [if_neg hkind]
    refine h.move rfl rfl hfirst h.used ?_
    rw [hphase]
    intro htol
    simpa [tolerates, hkind] using htol

theorem of_mem_entries (h : n ∈ s.entries) : ∃ i, s.reqInfo.nodeId i = n := by
  obtain ⟨i, -, hi⟩ := List.mem_map.1 h
  exact ⟨i, hi⟩

theorem named_dispatch (h : s.Named cfg) (hphase : s.phase = .tested caller nodeId)
    (hnames : s.NamesNode cfg s.phase) : (s.dispatch cfg caller nodeId).Named cfg := by
  have hnode : nodeId = -1 ∨ cfg.IsNode nodeId := by
    have := h.phase
    rw [hphase] at this
    exact this
  rw [hphase] at hnames
  unfold dispatch
  by_cases hkind : s.reqInfo.kind = .promoteNode
  · simp only [hkind, if_true]
    have hreturned : ∀ phase, tolerates s.reqInfo.kind phase = true := by
      rw [hkind]
      exact tolerates_promote
    split
    · exact h.move rfl rfl trivial h.used fun _ => hreturned _
    · rename_i hne
      have hnode := hnode.resolve_left hne
      have hused := h.used.append (areNodes_singleton hnode)
      split
      · exact named_chooseMaster (h.move rfl rfl h.phase hused id) hnode
      · exact h.move rfl rfl trivial hused fun _ => hreturned _
  · simp only [if_neg hkind]
    have hused : AreNodes cfg (s.used ++ s.entries.filter (· != -1)) := by
      refine h.used.append fun i hi => ?_
      obtain ⟨hmem, hne⟩ := List.mem_filter.1 hi
      obtain ⟨k, rfl⟩ := of_mem_entries hmem
      exact (h.entries k).resolve_left (by simpa using hne)
    have hintolerant : tolerates s.reqInfo.kind s.phase = true → False := by
      rw [hphase]
      simp [tolerates, hkind]
    split
    · exact h.move rfl rfl trivial hused fun htol => (hintolerant htol).elim
    · rename_i hdown
      have hne : nodeId ≠ -1 := fun hnil => hdown (hnames hkind hnil)
      exact named_chooseMaster (h.move rfl rfl h.phase hused id) (hnode.resolve_left hne)

theorem named_followPrimary (h : s.Named cfg) {newMaster newPrimary : Int} {below : Bool}
    (hnode : cfg.IsNode nodeId) (hmaster : newMaster < cfg.numBackends) :
    (s.followPrimary cfg caller nodeId nodes newMaster newPrimary below).Named cfg := by
  unfold followPrimary
  generalize (if s.followDegenerates cfg nodeId nodes below then followers cfg newPrimary
    else []) = follow
  -- the mailbox is cleared
  refine ⟨h.master, ⟨hnode, ?_⟩, fun _ => Or.inl rfl, fun _ => Or.inl rfl, h.used.append ?_⟩
  · split
    · exact hmaster
    · exact getNextMasterNode_lt
  · split
    · exact areNodes_singleton hnode
    · exact areNodes_nil

theorem named_step (h : s.Named cfg) (haddressed : s.WellAddressed cfg e)
    (hstep : step cfg s e = some t) : t.Named cfg := by
  have hrange := h.phase
  cases stepped_of_step hstep with
  | degenerateBackendSet => exact named_degenerateBackendSet h haddressed.1 haddressed.2
  | promoteBackend => exact named_promoteBackend h haddressed
  | failbackKind => exact h.write haddressed rfl rfl rfl h.used
  | failbackNodeId =>
    exact h.writeFirst haddressed.1 rfl rfl h.phase (fun _ hi => hi) haddressed.2 h.used
  | failbackSignal => exact named_failbackSignal h haddressed
  | closeIdle => exact h.write haddressed rfl rfl rfl h.used
  | signal => exact h.move rfl rfl h.phase h.used id
  | startRecovery => exact named_startRecovery h haddressed.1 haddressed.2
  | newConnection => exact h.move rfl rfl h.phase h.used id
  | failoverHandler => exact h.move rfl rfl h.phase h.used id
  | checkRequestAgain => exact h.move rfl rfl h.phase h.used id
  | wakeUp phase =>
    refine h.move rfl rfl trivial h.used ?_
    rw [phase]
    exact id
  | checkRequest phase =>
    cases hrequest : s.failoverRequest with
    | true =>
      refine h.move rfl rfl trivial h.used ?_
      rw [phase]
      exact id
    | false =>
      refine h.move rfl rfl trivial h.used ?_
      rw [phase]
      exact id
  | healthCheckFailed sts phase finds =>
    simp only [healthCheckFinds, Bool.and_eq_true, decide_eq_true_eq] at finds
    refine ⟨h.master, finds.1.1, h.entries, ?_, h.used.append (areNodes_singleton finds.1.1)⟩
    intro i
    rcases h.named i with hi | hi | ⟨hi, -⟩
    · exact Or.inl hi
    · exact Or.inr (Or.inl hi)
    · exact Or.inr (Or.inr ⟨hi, rfl⟩)
  | healthCheckNodeId phase =>
    rw [phase] at hrange
    exact h.writeFirst hrange rfl rfl trivial (fun _ hi => List.mem_cons_of_mem _ hi)
      (Or.inl (List.mem_cons_self ..)) h.used
  | lock phase => exact named_lock h phase
  | testFailback phase => exact named_testFailback h phase haddressed
  | dispatch phase => exact named_dispatch h phase haddressed
  | choosePrimary phase =>
    rw [phase] at hrange
    refine h.move rfl rfl hrange (h.used.append ?_) fun _ => rfl
    split
    · exact areNodes_singleton hrange.1
    · exact areNodes_nil
  | followPrimary found below phase primary =>
    rw [phase] at hrange
    exact named_followPrimary h hrange.1 hrange.2
  | @saveNodeIds _ _ _ newMaster phase =>
    rw [phase] at hrange
    refine ⟨?_, trivial, h.entries, ?_, h.used.append (areNodes_singleton hrange.1)⟩
    · change (if 0 ≤ newMaster then newMaster else _) < _
      split
      · exact hrange.2
      · exact h.master
    · intro i
      have hn := h.named i
      rw [phase] at hn
      exact hn
  | @clearRequest caller phase =>
    cases caller with
    | checkRequest =>
      refine h.move rfl rfl trivial h.used ?_
      rw [phase]
      exact id
    | healthCheck =>
      refine h.move rfl rfl trivial h.used ?_
      rw [phase]
      exact id

theorem Started.named (h : s.Started cfg) : s.Named cfg := by
  refine ⟨?_, ?_, fun i => Or.inl (h.nodeId i), fun i => Or.inl (h.nodeId i), ?_⟩
  · rw [h.masterNodeId]
    exact getNextMasterNode_lt
  · rw [h.phase]
    trivial
  · rw [h.used]
    exact areNodes_nil

/-! ## What goes down -/

theorem newConnection_not_down {status : Int → BackendStatus}
    (h : Function.update status n .up m = .down) : status m = .down := by
  by_cases hm : m = n
  · subst hm
    simp at h
  · rwa [Function.update_of_ne hm] at h

/-- `failover()` takes down what the entries of the mailbox name. -/
theorem down_of_dispatch (h : s.Named cfg) (hphase : s.phase = .tested caller nodeId)
    (hdown : (s.dispatch cfg caller nodeId).status n = .down) :
    s.status n = .down ∨ n ∈ s.accepted := by
  unfold dispatch at hdown
  by_cases hkind : s.reqInfo.kind = .promoteNode
  · simp only [hkind, if_true] at hdown
    split at hdown
    · exact Or.inl hdown
    · split at hdown
      · exact Or.inl hdown
      · exact Or.inl hdown
  · simp only [if_neg hkind] at hdown
    have hset : setDown s.status (s.downNodes cfg) n = .down := by
      split at hdown
      · exact hdown
      · exact hdown
    obtain hmem | hold := mem_setDown.1 hset
    · obtain ⟨hentry, hvalid⟩ := List.mem_filter.1 hmem
      obtain ⟨i, rfl⟩ := of_mem_entries hentry
      rcases h.named i with hi | hi | ⟨-, htol⟩
      · simp [hi] at hvalid
      · exact Or.inr hi
      · rw [hphase] at htol
        simp [tolerates, hkind] at htol
    · exact Or.inl hold

/-- The followers of a primary that is replaced are detached. -/
theorem down_of_followPrimary {newMaster newPrimary : Int} {below : Bool}
    (hbelow : s.reqInfo.primaryNodeId < 0 → below = false)
    (hdown : (s.followPrimary cfg caller nodeId nodes newMaster newPrimary below).status n = .down) :
    s.status n = .down ∨
      ((s.reqInfo.kind = .promoteNode ∨ s.reqInfo.primaryNodeId ∈ nodes) ∧ 0 ≤ newPrimary ∧
        n ≠ newPrimary) := by
  have hset : setDown s.status
      (if s.followDegenerates cfg nodeId nodes below then followers cfg newPrimary else []) n =
        .down := hdown
  obtain hmem | hold := mem_setDown.1 hset
  · right
    split at hmem
    · rename_i hfollow
      have hwhy : s.reqInfo.kind = .promoteNode ∨ s.reqInfo.primaryNodeId ∈ nodes := by
        simp only [followDegenerates, Bool.and_eq_true, Bool.or_eq_true, beq_iff_eq] at hfollow
        obtain ⟨-, ⟨-, hwent⟩ | ⟨hkind, -⟩⟩ := hfollow
        · unfold primaryWentDown at hwent
          split at hwent
          · rename_i hneg
            rw [hbelow hneg] at hwent
            cases hwent
          · exact Or.inr (by simpa using hwent)
        · exact Or.inl hkind
      unfold followers at hmem
      split at hmem
      · rename_i hpos
        exact ⟨hwhy, hpos, by simpa using (List.mem_filter.1 hmem).2⟩
      · cases hmem
    · cases hmem
  · exact Or.inl hold

theorem status_testFailback (hdown : (s.testFailback cfg caller).status n = .down) :
    s.status n = .down := by
  unfold testFailback at hdown
  by_cases hkind : s.reqInfo.kind = .nodeUp
  · simp only [hkind, if_true] at hdown
    split at hdown
    · exact hdown
    · split at hdown
      · exact hdown
      · change Function.update s.status _ .connectWait n = .down at hdown
        by_cases hn : n = s.reqInfo.nodeId 0
        · rw [hn, Function.update_self] at hdown
          cases hdown
        · rwa [Function.update_of_ne hn] at hdown
  · simp only [if_neg hkind] at hdown
    exact hdown

/-- A step takes a node down only at the request of one who named it, or as a follower. -/
theorem down_of_step (h : s.Named cfg) (haddressed : s.WellAddressed cfg e)
    (hstep : step cfg s e = some t) (hdown : t.status n = .down) :
    s.status n = .down ∨ n ∈ s.accepted ∨ s.Detaches cfg e s.phase n := by
  cases stepped_of_step hstep with
  | degenerateBackendSet => exact Or.inl (status_degenerateBackendSet ▸ hdown)
  | promoteBackend => exact Or.inl (status_promoteBackend ▸ hdown)
  | failbackSignal => exact Or.inl (status_failbackSignal ▸ hdown)
  | startRecovery => exact Or.inl (status_startRecovery ▸ hdown)
  | lock => exact Or.inl (status_lock ▸ hdown)
  | newConnection => exact Or.inl (newConnection_not_down hdown)
  | testFailback => exact Or.inl (status_testFailback hdown)
  | dispatch phase => exact (down_of_dispatch h phase hdown).imp_right Or.inl
  | @followPrimary _ _ _ _ _ promoted found below phase primary =>
    rw [phase]
    cases promoted with
    | true =>
      cases (show _ = _ from primary)
      exact (down_of_followPrimary haddressed hdown).imp_right Or.inr
    | false =>
      obtain ⟨rfl, -⟩ : _ = found ∧ _ := primary
      exact (down_of_followPrimary haddressed hdown).imp_right Or.inr
  | @clearRequest caller phase =>
    cases caller with
    | checkRequest => exact Or.inl hdown
    | healthCheck => exact Or.inl hdown
  | _ => exact Or.inl hdown

/-- **No spurious degeneration** in a run that leaves no node id to be misread: a node goes down only
if an accepted degenerate request that has not been served names it, or as a follower of a primary
that is replaced; and only node ids are used as indices. -/
theorem down_of_run (hstart : s.Started cfg) {u : ParentState}
    (hrun : Run (step cfg) (WellAddressed cfg) s t) (haddressed : t.WellAddressed cfg e)
    (hstep : step cfg t e = some u) :
    (∀ n, u.status n = .down → t.status n = .down ∨ n ∈ t.accepted ∨ t.Detaches cfg e t.phase n) ∧
      ∀ i ∈ u.used, cfg.IsNode i := by
  have h : t.Named cfg := by
    refine hrun.invariant ?_ hstart.named
    intro s e t hs haddressed hstep
    exact named_step hs haddressed hstep
  exact ⟨fun _ hdown => down_of_step h haddressed hstep hdown, (named_step h haddressed hstep).used⟩

instance : (phase : FailoverPhase) → Decidable (s.NamesNode cfg phase)
  | .tested _ _ => inferInstanceAs (Decidable (_ → _ → _))
  | .waiting | .checking | .reporting _ | .called _ | .locked _ | .chosen _ _ _ _
  | .searching _ _ _ _ _ | .finishing _ _ _ _ | .returned _ => isTrue trivial

instance : (e : ParentEvent cfg) → Decidable (s.WellAddressed cfg e)
  | .degenerateBackendSet _ nodeIdSet =>
      inferInstanceAs (Decidable ((∀ i ∈ nodeIdSet, _ → AreNodes cfg _) ∧ (_ → _ ∨ _ ∈ _)))
  | .promoteBackend _ _ => inferInstanceAs (Decidable (_ → AreNodes cfg _))
  | .failbackKind => inferInstanceAs (Decidable (s.ClearFor .nodeUp))
  | .failbackNodeId nodeId => inferInstanceAs (Decidable (cfg.IsNode nodeId ∧ (_ ∈ _ ∨ _ = _)))
  | .failbackSignal _ _ => inferInstanceAs (Decidable (_ → _ → _))
  | .closeIdle => inferInstanceAs (Decidable (s.ClearFor .closeIdle))
  | .startRecovery _ _ => inferInstanceAs (Decidable (AreNodes cfg _ ∧ (_ → s.ClearFor .nodeRecovery)))
  | .testFailback => inferInstanceAs (Decidable (_ → _ ≠ _))
  | .dispatch => inferInstanceAs (Decidable (s.NamesNode cfg s.phase))
  | .followPrimary _ _ => inferInstanceAs (Decidable (_ → _ = _))
  | .signal | .newConnection _ | .failoverHandler | .wakeUp | .checkRequest | .healthCheckFailed _
  | .healthCheckNodeId | .lock | .choosePrimary | .checkRequestAgain | .saveNodeIds
  | .clearRequest => isTrue trivial

/-- The parent is about to read the entries of the mailbox. -/
def beforeDispatch {cfg : FailoverConfig} : List (ParentEvent cfg) :=
  [.failoverHandler, .wakeUp, .checkRequest, .lock, .testFailback]

/-- Node 1 goes down at the request of a child. -/
theorem down_of_request : ∃ t u,
    runAll (step replicas) (.degenerateBackendSet replicasUp [1] :: beforeDispatch) replicasStart =
      some t ∧
    step replicas t .dispatch = some u ∧
    (∀ n, u.status n = .down →
      t.status n = .down ∨ n ∈ t.accepted ∨ t.Detaches replicas .dispatch t.phase n) ∧
    ∀ i ∈ u.used, replicas.IsNode i := by
  have hend : (runAll (step replicas) (.degenerateBackendSet replicasUp [1] :: beforeDispatch)
      replicasStart).any (fun t => decide (t.WellAddressed replicas .dispatch) &&
        (step replicas t .dispatch).isSome) = true := by decide +kernel
  obtain ⟨t, ht, hdone⟩ := (Option.any_eq_true _ _).1 hend
  obtain ⟨haddressed, hsome⟩ := Bool.and_eq_true_iff.1 hdone
  obtain ⟨u, hu⟩ := Option.isSome_iff_exists.1 hsome
  exact ⟨t, u, ht, hu, down_of_run started_replicas (.of_runAll ht (by decide +kernel))
    (of_decide_eq_true haddressed) hu⟩

/-- A failback of node 2, which is up, is rejected by `failover()`; later a child reports nodes 0 and
1, of which the first may not be degenerated. -/
def rejectedFailback : List (ParentEvent replicas) :=
  [.failbackKind, .failbackNodeId 2, .failbackSignal replicasUp 2] ++ beforeDispatch ++
    [.clearRequest, .degenerateBackendSet replicasUp [0, 1]] ++ beforeDispatch

/-- Node 2 goes down with node 1; without the failback the last message of `failover()` looks up the
empty entry. -/
theorem rejectedFailback_goes_down : replicasStart.Started replicas ∧
    (∃ t u, runAll (step replicas) rejectedFailback replicasStart = some t ∧
      step replicas t .dispatch = some u ∧ u.status 2 = .down ∧
      ¬ (t.status 2 = .down ∨ 2 ∈ t.accepted ∨ t.Detaches replicas .dispatch t.phase 2)) ∧
    ∃ t, runAll (step replicas) ([.degenerateBackendSet replicasUp [0, 1], .failoverHandler] ++
      runFailover) replicasStart = some t ∧ -1 ∈ t.used ∧ ¬ replicas.IsNode (-1) := by
  have hfirst : (runAll (step replicas) rejectedFailback replicasStart).any (fun t =>
      decide (t.status 2 = .connectWait ∧ 2 ∉ t.accepted) &&
        (step replicas t .dispatch).any fun u => decide (u.status 2 = .down)) = true := by
    decide +kernel
  have hsecond : (runAll (step replicas) ([.degenerateBackendSet replicasUp [0, 1],
      .failoverHandler] ++ runFailover) replicasStart).any (fun t => decide (-1 ∈ t.used)) = true := by
    decide +kernel
  obtain ⟨t, ht, hdone⟩ := (Option.any_eq_true _ _).1 hfirst
  obtain ⟨hbefore, hafter⟩ := Bool.and_eq_true_iff.1 hdone
  obtain ⟨hstatus, haccepted⟩ := of_decide_eq_true hbefore
  obtain ⟨u, hu, hdown⟩ := (Option.any_eq_true _ _).1 hafter
  obtain ⟨v, hv, hused⟩ := (Option.any_eq_true _ _).1 hsecond
  refine ⟨started_replicas, ⟨t, u, ht, hu, of_decide_eq_true hdown, ?_⟩, v, hv,
    of_decide_eq_true hused, by decide⟩
  intro h
  rcases h with h | h | h
  · rw [hstatus] at h
    cases h
  · exact haccepted h
  · exact h

end ParentState

end PgPool
