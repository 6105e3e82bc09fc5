import PgPool.Query.WhereToSend

/-!
# Sending a query

`pool_send_and_wait` of `pool_query_context.c`, and the set of nodes from which
`read_kind_from_backend` then reads.  The send loop tests `VALID_BACKEND` on the node map that it
changes itself: a COMMIT or ROLLBACK that a node need not see is taken out of the map.
-/

namespace PgPool

namespace Session

/-- The tests on `send_type` and `node_id`: is the node one that this call is for? -/
def addressed (sendType : Int) (nodeId : NodeId) (i : NodeId) : Bool :=
  !(sendType < 0 && i == nodeId) && !(0 < sendType && i != nodeId)

/-- The two tests on COMMIT and ROLLBACK: in master/slave mode a standby that is idle is left out;
in the reset context any node that is. -/
def commitSkips (env : Setup) (qc : QcId) (s : Session) (i : NodeId) : Bool :=
  isCommitQuery (s.contexts qc).parseTree && s.tstate i == .I &&
    ((env.masterSlaveMode && i != s.masterNodeId env) || s.resetContext)

/-- `pool_unset_node_to_be_sent`. -/
def unsetNode (qc : QcId) (i : NodeId) (s : Session) : Session :=
  s.setMap qc ((s.contexts qc).whereToSend.unset i)

/-- One pass of the send loop. -/
def sendToNode (env : Setup) (qc : QcId) (msg : BackendMsg) (sendType : Int) (nodeId : NodeId)
    (s : Session) (i : NodeId) : Session :=
  if !s.validBackend env i then s
  else if !addressed sendType nodeId i then s
  else if s.commitSkips env qc i then s.unsetNode qc i
  else s.emit (.sent i msg qc)

/-- `pool_send_and_wait`.  Waiting for the responses changes nothing, and a failure to send ends the
session. -/
def poolSendAndWait (env : Setup) (qc : QcId) (msg : BackendMsg) (sendType : Int) (nodeId : NodeId)
    (s : Session) : Session :=
  env.nodes.foldl (sendToNode env qc msg sendType nodeId) s

/-- The nodes from which `read_kind_from_backend` reads a kind. -/
def readKindNodes (env : Setup) (s : Session) : List NodeId := s.validNodes env

/-! ## What a call does -/

section

variable {env : Setup} {qc : QcId} {msg : BackendMsg} {sendType : Int} {nodeId : NodeId}

/-- Take nodes out of a context's map. -/
def dropNodes (qc : QcId) (nodes : List NodeId) (s : Session) : Session :=
  s.setMap qc fun j => if j ∈ nodes then false else (s.contexts qc).whereToSend j

/-- Record that a message goes to the nodes, one after the other. -/
def emitSent (qc : QcId) (msg : BackendMsg) (nodes : List NodeId) (s : Session) : Session :=
  { s with
    conn := { s.conn with
      trace := (nodes.map fun i => Action.sent i msg qc).reverse ++ s.conn.trace } }

/-- The nodes of a list to which a call sends. -/
def sentAmong (env : Setup) (qc : QcId) (sendType : Int) (nodeId : NodeId) (s : Session)
    (nodes : List NodeId) : List NodeId :=
  nodes.filter fun i =>
    s.validBackend env i && addressed sendType nodeId i && !s.commitSkips env qc i

/-- The nodes of a list that a call takes out of the map. -/
def droppedAmong (env : Setup) (qc : QcId) (sendType : Int) (nodeId : NodeId) (s : Session)
    (nodes : List NodeId) : List NodeId :=
  nodes.filter fun i =>
    s.validBackend env i && addressed sendType nodeId i && s.commitSkips env qc i

theorem unset_eq {map : NodeMap} {i : NodeId} (hi : i < env.numBackends) :
    map.unset i = fun j => if j = i then false else map j := by
  have hle : i ≤ maxNumBackends := Nat.le_trans (Nat.le_of_lt hi) env.numBackends_le
  simp [NodeMap.unset, Nat.not_lt.2 hle]

theorem dropNodes_nil (s : Session) : s.dropNodes qc [] = s := by
  simpa [dropNodes, setMap, QueryContext.setMap] using s.setContext_self qc

@[simp] theorem emitSent_nil (s : Session) : s.emitSent qc msg [] = s := rfl

theorem emitSent_cons (s : Session) (i : NodeId) (nodes : List NodeId) :
    s.emitSent qc msg (i :: nodes) = (s.emit (.sent i msg qc)).emitSent qc msg nodes := by
  simp [emitSent, emit]

theorem unsetNode_eq {i : NodeId} (hi : i < env.numBackends) (s : Session) :
    s.unsetNode qc i = s.dropNodes qc [i] := by
  simp [unsetNode, dropNodes, unset_eq hi]

theorem dropNodes_dropNodes (s : Session) (i : NodeId) (nodes : List NodeId) :
    (s.dropNodes qc [i]).dropNodes qc nodes = s.dropNodes qc (i :: nodes) := by
  unfold dropNodes setMap
  rw [setContext_setContext, contexts_setContext_self]
  unfold QueryContext.setMap
  congr 2
  funext j
  by_cases hj : j = i <;> by_cases hn : j ∈ nodes <;> simp [hj, hn]

/-- Taking a node out of the map of the current query does not matter for another node. -/
theorem validBackend_dropNodes (s : Session) {i j : NodeId} (h : j ≠ i) :
    (s.dropNodes qc [i]).validBackend env j = s.validBackend env j := by
  have hmap : ∀ q, ((s.dropNodes qc [i]).contexts q).whereToSend j =
      (s.contexts q).whereToSend j := by
    intro q
    by_cases hq : q = qc
    · subst hq
      simp [dropNodes, setMap, QueryContext.setMap, h]
    · rw [dropNodes, setMap, contexts_setContext_ne _ _ hq]
  have hcur : (s.dropNodes qc [i]).isNodeToBeSentInCurrentQuery env j =
      s.isNodeToBeSentInCurrentQuery env j := by
    unfold isNodeToBeSentInCurrentQuery
    rw [show (s.dropNodes qc [i]).inProgress = s.inProgress from rfl,
      show (s.dropNodes qc [i]).queryContext = s.queryContext from rfl]
    split
    · rfl
    · cases s.inProgress <;> cases s.queryContext <;> simp [hmap]
  simp [validBackend, hcur]

theorem masterNodeId_dropNodes (s : Session) (nodes : List NodeId) :
    (s.dropNodes qc nodes).masterNodeId env = s.masterNodeId env := by
  unfold masterNodeId
  rw [show (s.dropNodes qc nodes).queryContext = s.queryContext from rfl]
  cases s.queryContext with
  | none => rfl
  | some q => by_cases hq : q = qc <;> simp [dropNodes, setMap, setContext, QueryContext.setMap, hq]

theorem commitSkips_dropNodes (s : Session) (nodes : List NodeId) (j : NodeId) :
    (s.dropNodes qc nodes).commitSkips env qc j = s.commitSkips env qc j := by
  unfold commitSkips
  rw [masterNodeId_dropNodes]
  simp [dropNodes, setMap, setContext, QueryContext.setMap, tstate]

/-- The loop over a list of distinct nodes: each node's tests come out as they do before the loop,
because a pass changes the map at its own node only. -/
theorem foldl_sendToNode (nodes : List NodeId) (s : Session) (hnd : nodes.Nodup)
    (hlt : ∀ i ∈ nodes, i < env.numBackends) :
    nodes.foldl (sendToNode env qc msg sendType nodeId) s =
      (s.dropNodes qc (droppedAmong env qc sendType nodeId s nodes)).emitSent qc msg
        (sentAmong env qc sendType nodeId s nodes) := by
  induction nodes generalizing s with
  | nil => simp [droppedAmong, sentAmong, dropNodes_nil]
  | cons i rest ih =>
    obtain ⟨hi, hrest⟩ := List.nodup_cons.1 hnd
    have hltr : ∀ j ∈ rest, j < env.numBackends := fun j hj => hlt j (List.mem_cons_of_mem _ hj)
    rw [List.foldl_cons]
    by_cases hv : (s.validBackend env i && addressed sendType nodeId i) = true
    · obtain ⟨hvalid, haddr⟩ := Bool.and_eq_true_iff.1 hv
      cases hskip : s.commitSkips env qc i with
      | true =>
        have hstep : sendToNode env qc msg sendType nodeId s i = s.dropNodes qc [i] := by
          simp [sendToNode, hvalid, haddr, hskip, unsetNode_eq (hlt i List.mem_cons_self)]
        have hsame : ∀ j ∈ rest, (s.dropNodes qc [i]).validBackend env j = s.validBackend env j :=
          fun j hj => validBackend_dropNodes s (fun he => hi (he ▸ hj))
        have hdrop : droppedAmong env qc sendType nodeId (s.dropNodes qc [i]) rest =
            droppedAmong env qc sendType nodeId s rest :=
          List.filter_congr fun j hj => by rw [hsame j hj, commitSkips_dropNodes]
        have hsent : sentAmong env qc sendType nodeId (s.dropNodes qc [i]) rest =
            sentAmong env qc sendType nodeId s rest :=
          List.filter_congr fun j hj => by rw [hsame j hj, commitSkips_dropNodes]
        rw [hstep, ih _ hrest hltr, hdrop, hsent, dropNodes_dropNodes]
        simp [droppedAmong, sentAmong, hvalid, haddr, hskip]
      | false =>
        have hstep : sendToNode env qc msg sendType nodeId s i = s.emit (.sent i msg qc) := by
          simp [sendToNode, hvalid, haddr, hskip]
        have hsent : sentAmong env qc sendType nodeId s (i :: rest) =
            i :: sentAmong env qc sendType nodeId s rest := by
          simp [sentAmong, hvalid, haddr, hskip]
        have hdrop : droppedAmong env qc sendType nodeId s (i :: rest) =
            droppedAmong env qc sendType nodeId s rest := by
          simp [droppedAmong, hvalid, haddr, hskip]
        rw [hstep, ih _ hrest hltr, hsent, hdrop, emitSent_cons]
        rfl
    · have hstep : sendToNode env qc msg sendType nodeId s i = s := by
        simp only [Bool.and_eq_true, not_and, Bool.not_eq_true] at hv
        unfold sendToNode
        cases hvalid : s.validBackend env i with
        | false => rfl
        | true => simp [hv hvalid]
      rw [hstep, ih _ hrest hltr]
      simp [droppedAmong, sentAmong, hv]

/-- A call sends to the valid nodes it addresses, but for those that need not see a COMMIT, which it
takes out of the map. -/
theorem poolSendAndWait_eq (s : Session) :
    poolSendAndWait env qc msg sendType nodeId s =
      (s.dropNodes qc (droppedAmong env qc sendType nodeId s env.nodes)).emitSent qc msg
        (sentAmong env qc sendType nodeId s env.nodes) :=
  foldl_sendToNode env.nodes s List.nodup_range fun _ hi => env.mem_nodes.1 hi

end

/-! ## The nodes that are read -/

/-- One call of `pool_send_and_wait`. -/
structure SendCall where
  message : BackendMsg
  sendType : Int
  nodeId : NodeId

/-- The calls made for one query, in order. -/
def sendCalls (env : Setup) (qc : QcId) (calls : List SendCall) (s : Session) : Session :=
  calls.foldl (fun s c => poolSendAndWait env qc c.message c.sendType c.nodeId s) s

/-- Some call is for the node. -/
def Addresses (calls : List SendCall) (i : NodeId) : Prop :=
  ∃ c ∈ calls, addressed c.sendType c.nodeId i = true

instance (calls : List SendCall) (i : NodeId) : Decidable (Addresses calls i) :=
  inferInstanceAs (Decidable (∃ c ∈ calls, addressed c.sendType c.nodeId i = true))

/-- A message for the query went to the node between two states. -/
def SentBetween (qc : QcId) (s t : Session) (i : NodeId) : Prop :=
  ∃ new msg, t.conn.trace = new ++ s.conn.trace ∧ Action.sent i msg qc ∈ new

section

variable {env : Setup} {qc : QcId} {s : Session} {calls : List SendCall} {i : NodeId}

theorem mem_validNodes : i ∈ s.validNodes env ↔ i < env.numBackends ∧ s.validBackend env i = true := by
  simp [validNodes]

/-- While the query is in progress, the nodes taken out of its map are no longer valid, except that
raw mode does not look at the map. -/
theorem validBackend_dropNodes_current (hqc : s.queryContext = some qc) (hp : s.inProgress = true)
    (nodes : List NodeId) :
    (s.dropNodes qc nodes).validBackend env i =
      (s.validBackend env i && (env.rawMode || !decide (i ∈ nodes))) := by
  have hp' : (s.dropNodes qc nodes).inProgress = true := hp
  have hqc' : (s.dropNodes qc nodes).queryContext = some qc := hqc
  unfold validBackend isNodeToBeSentInCurrentQuery
  cases hraw : env.rawMode with
  | true => simp
  | false =>
    rw [hp, hqc, hp', hqc']
    by_cases hi : i ∈ nodes <;> simp [dropNodes, setMap, QueryContext.setMap, hi]

/-- What one call does to the validity of a node. -/
theorem validBackend_poolSendAndWait (hqc : s.queryContext = some qc) (hp : s.inProgress = true)
    (hi : i < env.numBackends) (c : SendCall) :
    (poolSendAndWait env qc c.message c.sendType c.nodeId s).validBackend env i =
      (s.validBackend env i &&
        (env.rawMode || !(addressed c.sendType c.nodeId i && s.commitSkips env qc i))) := by
  rw [poolSendAndWait_eq]
  change (s.dropNodes qc _).validBackend env i = _
  rw [validBackend_dropNodes_current hqc hp]
  cases hv : s.validBackend env i <;> simp [droppedAmong, hi, hv]

theorem commitSkips_poolSendAndWait (c : SendCall) :
    (poolSendAndWait env qc c.message c.sendType c.nodeId s).commitSkips env qc i =
      s.commitSkips env qc i := by
  rw [poolSendAndWait_eq]
  exact commitSkips_dropNodes s _ i

theorem masterNodeId_poolSendAndWait (c : SendCall) :
    (poolSendAndWait env qc c.message c.sendType c.nodeId s).masterNodeId env =
      s.masterNodeId env := by
  rw [poolSendAndWait_eq]
  exact masterNodeId_dropNodes s _

theorem inProgress_poolSendAndWait (c : SendCall) :
    (poolSendAndWait env qc c.message c.sendType c.nodeId s).inProgress = s.inProgress := by
  rw [poolSendAndWait_eq]
  rfl

theorem queryContext_poolSendAndWait (c : SendCall) :
    (poolSendAndWait env qc c.message c.sendType c.nodeId s).queryContext = s.queryContext := by
  rw [poolSendAndWait_eq]
  rfl

theorem trace_poolSendAndWait (c : SendCall) :
    (poolSendAndWait env qc c.message c.sendType c.nodeId s).conn.trace =
      ((sentAmong env qc c.sendType c.nodeId s env.nodes).map fun i =>
        Action.sent i c.message qc).reverse ++ s.conn.trace := by
  rw [poolSendAndWait_eq]
  rfl

theorem masterNodeId_sendCalls : (sendCalls env qc calls s).masterNodeId env = s.masterNodeId env := by
  induction calls generalizing s with
  | nil => rfl
  | cons c rest ih => exact ih.trans (masterNodeId_poolSendAndWait c)

/-- The nodes that are valid after all calls. -/
theorem validBackend_sendCalls (hqc : s.queryContext = some qc) (hp : s.inProgress = true)
    (hi : i < env.numBackends) :
    (sendCalls env qc calls s).validBackend env i = true ↔
      s.validBackend env i = true ∧
        (env.rawMode = true ∨ ¬ (Addresses calls i ∧ s.commitSkips env qc i = true)) := by
  induction calls generalizing s with
  | nil => simp [sendCalls, Addresses]
  | cons c rest ih =>
    have hstep := ih (s := poolSendAndWait env qc c.message c.sendType c.nodeId s)
      ((queryContext_poolSendAndWait c).trans hqc) ((inProgress_poolSendAndWait c).trans hp)
    rw [commitSkips_poolSendAndWait, validBackend_poolSendAndWait hqc hp hi] at hstep
    refine hstep.trans ?_
    cases s.validBackend env i <;> cases env.rawMode <;> cases s.commitSkips env qc i <;>
      simp [Addresses]

/-- The nodes that get a message from one call. -/
theorem mem_sentAmong {c : SendCall} :
    i ∈ sentAmong env qc c.sendType c.nodeId s env.nodes ↔
      i ∈ s.validNodes env ∧ addressed c.sendType c.nodeId i = true ∧
        s.commitSkips env qc i = false := by
  simp [sentAmong, mem_validNodes, and_assoc]

/-- The nodes that get a message in the course of all calls. -/
theorem trace_sendCalls (hqc : s.queryContext = some qc) (hp : s.inProgress = true) :
    ∃ new, (sendCalls env qc calls s).conn.trace = new ++ s.conn.trace ∧
      ∀ i, (∃ msg, Action.sent i msg qc ∈ new) ↔
        i ∈ s.validNodes env ∧ Addresses calls i ∧ s.commitSkips env qc i = false := by
  induction calls generalizing s with
  | nil => exact ⟨[], rfl, by simp [Addresses]⟩
  | cons c rest ih =>
    obtain ⟨new, htrace, hnew⟩ := ih (s := poolSendAndWait env qc c.message c.sendType c.nodeId s)
      ((queryContext_poolSendAndWait c).trans hqc) ((inProgress_poolSendAndWait c).trans hp)
    rw [trace_poolSendAndWait] at htrace
    refine ⟨_, htrace.trans (List.append_assoc _ _ _).symm, ?_⟩
    intro i
    have hrest : (∃ msg, Action.sent i msg qc ∈ new) ↔
        i ∈ s.validNodes env ∧ Addresses rest i ∧ s.commitSkips env qc i = false := by
      rw [hnew i, commitSkips_poolSendAndWait, mem_validNodes, mem_validNodes]
      by_cases hi : i < env.numBackends
      · rw [validBackend_poolSendAndWait hqc hp hi]
        cases s.commitSkips env qc i <;> simp
      · simp [hi]
    have hfirst : (∃ msg, Action.sent i msg qc ∈ (List.map (fun i => Action.sent i c.message qc)
        (sentAmong env qc c.sendType c.nodeId s env.nodes)).reverse) ↔
          i ∈ sentAmong env qc c.sendType c.nodeId s env.nodes := by
      simp
    have haddr : Addresses (c :: rest) i ↔
        addressed c.sendType c.nodeId i = true ∨ Addresses rest i := by
      simp [Addresses]
    simp only [List.mem_append, exists_or]
    rw [hrest, hfirst, mem_sentAmong, haddr]
    constructor
    · rintro (⟨hv, ha, hc⟩ | ⟨hv, ha, hc⟩)
      · exact ⟨hv, Or.inr ha, hc⟩
      · exact ⟨hv, Or.inl ha, hc⟩
    · rintro ⟨hv, ha | ha, hc⟩
      · exact Or.inr ⟨hv, ha, hc⟩
      · exact Or.inl ⟨hv, ha, hc⟩

theorem sentBetween_sendCalls (hqc : s.queryContext = some qc) (hp : s.inProgress = true) :
    SentBetween qc s (sendCalls env qc calls s) i ↔
      i ∈ s.validNodes env ∧ Addresses calls i ∧ s.commitSkips env qc i = false := by
  obtain ⟨new, htrace, hnew⟩ :
      ∃ new, (sendCalls env qc calls s).conn.trace = new ++ s.conn.trace ∧ _ :=
    trace_sendCalls hqc hp
  rw [← hnew i]
  constructor
  · intro ⟨new', msg, htrace', hmem⟩
    have heq : new' = new := List.append_cancel_right (htrace'.symm.trans htrace)
    exact ⟨msg, heq ▸ hmem⟩
  · intro ⟨msg, hmem⟩
    exact ⟨new, msg, htrace, hmem⟩

/-- The nodes read after all calls. -/
theorem mem_readKindNodes_sendCalls (hqc : s.queryContext = some qc) (hp : s.inProgress = true) :
    i ∈ (sendCalls env qc calls s).readKindNodes env ↔
      i ∈ s.validNodes env ∧
        (env.rawMode = true ∨ ¬ (Addresses calls i ∧ s.commitSkips env qc i = true)) := by
  rw [readKindNodes, mem_validNodes, mem_validNodes]
  constructor
  · intro ⟨hi, hv⟩
    obtain ⟨hv, hopen⟩ := (validBackend_sendCalls hqc hp hi).1 hv
    exact ⟨⟨hi, hv⟩, hopen⟩
  · intro ⟨⟨hi, hv⟩, hopen⟩
    exact ⟨hi, (validBackend_sendCalls hqc hp hi).2 ⟨hv, hopen⟩⟩

/-- In raw mode the real master is the only valid node. -/
theorem eq_realMaster_of_raw (hraw : env.rawMode = true) (h : i ∈ s.validNodes env) :
    i = env.realMasterNodeId := by
  have hv := (mem_validNodes.1 h).2
  simp only [validBackend, isNodeToBeSentInCurrentQuery, hraw, Bool.true_and, if_true,
    Bool.or_eq_true, Bool.and_eq_true, beq_iff_eq] at hv
  rcases hv with h | ⟨h, -⟩ <;> exact h

theorem isMyUp_of_valid (hraw : env.rawMode = false) (h : i ∈ s.validNodes env) :
    env.isMyUp i = true := by
  have hv := (mem_validNodes.1 h).2
  simp only [validBackend, hraw, Bool.false_and, Bool.false_or, Bool.and_eq_true] at hv
  exact hv.2

end

end Session

end PgPool
