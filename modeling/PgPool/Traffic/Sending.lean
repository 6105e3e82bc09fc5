import PgPool.Traffic.Basic

/-!
# Sending and the query contexts

Sending a message changes a query context only where a COMMIT or ROLLBACK is kept from a node.  For
a session that serves a client this does not happen: in master/slave mode such a statement is
routed to the primary alone.
-/

namespace PgPool

/-- In master/slave mode a COMMIT or ROLLBACK goes to its virtual master only. -/
def CommitAlone (env : Setup) (c : QueryContext) : Prop :=
  env.masterSlaveMode = true → isCommitQuery c.parseTree = true →
    ∀ i, c.whereToSend i = true → i = c.virtualMasterNodeId

/-- A message for a query goes to one of some nodes. -/
def Action.Sends (calls : List Session.SendCall) (qc : QcId) (nodes : List NodeId) (a : Action) :
    Prop :=
  ∃ c ∈ calls, ∃ i ∈ nodes, a = .sent i c.message qc

namespace Session

/-- The session with more history. -/
def record (new : List Action) (s : Session) : Session :=
  { s with conn := { s.conn with trace := new ++ s.conn.trace } }

variable {env : Setup} {ans : Answers} {s t : Session} {qc q : QcId} {calls : List SendCall}
  {i : NodeId}

theorem record_record (new new' : List Action) :
    (s.record new).record new' = s.record (new' ++ new) := by
  simp [record]

theorem validNodes_of_current (hraw : env.rawMode = false) (hqc : s.queryContext = some qc)
    (hp : s.inProgress = true) :
    i ∈ s.validNodes env ↔
      i < env.numBackends ∧ (s.contexts qc).whereToSend i = true ∧ env.isMyUp i = true := by
  rw [mem_validNodes]
  simp [validBackend, isNodeToBeSentInCurrentQuery, hraw, hqc, hp]

/-- The nodes that are valid depend on the current query and its map only. -/
theorem validNodes_congr (progress : t.inProgress = s.inProgress)
    (current : t.queryContext = s.queryContext)
    (map : ∀ qc, s.queryContext = some qc →
      (t.contexts qc).whereToSend = (s.contexts qc).whereToSend) :
    t.validNodes env = s.validNodes env := by
  have hcur : ∀ j, t.isNodeToBeSentInCurrentQuery env j = s.isNodeToBeSentInCurrentQuery env j := by
    intro j
    unfold isNodeToBeSentInCurrentQuery
    rw [progress, current]
    cases hq : s.queryContext with
    | none => cases s.inProgress <;> rfl
    | some q =>
      have hmap := map q hq
      cases s.inProgress <;> simp [hmap]
  have hvalid : t.validBackend env = s.validBackend env := by
    funext j
    unfold validBackend
    rw [hcur]
  unfold validNodes
  rw [hvalid]

theorem Quiet.validNodes {P : Action → Prop} (h : Quiet P s t) (hc : t.control = s.control) :
    t.validNodes env = s.validNodes env :=
  validNodes_congr (congrArg Control.inProgress hc) (congrArg Control.queryContext hc)
    fun _ _ => by rw [h.contexts]

/-! ## Calls without skipped nodes -/

theorem commitSkips_of_not_commit (h : isCommitQuery (s.contexts qc).parseTree = false) :
    s.commitSkips env qc i = false := by
  simp [commitSkips, h]

/-- While a client is served no valid node is skipped. -/
theorem commitSkips_of_serving (hreset : s.resetContext = false)
    (halone : CommitAlone env (s.contexts qc)) (hqc : s.queryContext = some qc)
    (hp : s.inProgress = true) (hi : i ∈ s.validNodes env) : s.commitSkips env qc i = false := by
  unfold commitSkips
  rw [hreset, Bool.or_false]
  cases hms : env.masterSlaveMode with
  | false => simp
  | true =>
    cases hc : isCommitQuery (s.contexts qc).parseTree with
    | false => simp
    | true =>
      have hmap := ((validNodes_of_current (env.rawMode_of_masterSlave hms) hqc hp).1 hi).2.1
      have hvm : i = s.masterNodeId env := by
        rw [halone hms hc i hmap, masterNodeId, hqc]
      simp [hvm]

theorem contexts_poolSendAndWait_ne (hq : q ≠ qc) (msg : BackendMsg) (sendType : Int)
    (i : NodeId) : (poolSendAndWait env qc msg sendType i s).contexts q = s.contexts q := by
  rw [poolSendAndWait_eq]
  exact contexts_setContext_ne _ _ hq

theorem contexts_sendCalls_ne (hq : q ≠ qc) :
    (sendCalls env qc calls s).contexts q = s.contexts q := by
  induction calls generalizing s with
  | nil => rfl
  | cons c rest ih => exact ih.trans (contexts_poolSendAndWait_ne hq _ _ _)

/-- A call that skips no node does nothing but send. -/
theorem record_poolSendAndWait (hopen : ∀ i ∈ s.validNodes env, s.commitSkips env qc i = false)
    (c : SendCall) :
    ∃ new, poolSendAndWait env qc c.message c.sendType c.nodeId s = s.record new ∧
      ∀ a ∈ new, a.Sends [c] qc (s.validNodes env) := by
  have hdrop : droppedAmong env qc c.sendType c.nodeId s env.nodes = [] := by
    rw [droppedAmong, List.filter_eq_nil_iff]
    intro i hi
    by_cases hv : s.validBackend env i = true
    · simp [hopen i (mem_validNodes.2 ⟨env.mem_nodes.1 hi, hv⟩)]
    · simp [hv]
  refine ⟨((sentAmong env qc c.sendType c.nodeId s env.nodes).map fun i =>
    Action.sent i c.message qc).reverse, ?_, fun a ha => ?_⟩
  · rw [poolSendAndWait_eq, hdrop, dropNodes_nil]
    rfl
  · rw [List.mem_reverse, List.mem_map] at ha
    obtain ⟨i, hi, rfl⟩ := ha
    exact ⟨c, List.mem_singleton_self c, i, (mem_sentAmong.1 hi).1, rfl⟩

theorem record_sendCalls (hopen : ∀ i ∈ s.validNodes env, s.commitSkips env qc i = false) :
    ∃ new, sendCalls env qc calls s = s.record new ∧
      ∀ a ∈ new, a.Sends calls qc (s.validNodes env) := by
  induction calls generalizing s with
  | nil => exact ⟨[], rfl, by simp⟩
  | cons c rest ih =>
    obtain ⟨new, hfirst, hnew⟩ := record_poolSendAndWait hopen c
    obtain ⟨new', hrest, hnew'⟩ := ih (s := s.record new) hopen
    refine ⟨new' ++ new, ?_, fun a ha => ?_⟩
    · change sendCalls env qc rest (poolSendAndWait env qc c.message c.sendType c.nodeId s) = _
      rw [hfirst, hrest, record_record]
    · rcases List.mem_append.1 ha with ha | ha
      · obtain ⟨c', hc', i, hi, rfl⟩ := hnew' a ha
        exact ⟨c', List.mem_cons_of_mem c hc', i, hi, rfl⟩
      · obtain ⟨c', hc', i, hi, rfl⟩ := hnew a ha
        rw [List.mem_singleton.1 hc']
        exact ⟨c, List.mem_cons_self, i, hi, rfl⟩

/-- Any calls for the current query go to nodes that are valid before. -/
theorem follows_sendCalls (hqc : s.queryContext = some qc) (hp : s.inProgress = true) :
    Follows (Action.Sends calls qc (s.validNodes env)) s (sendCalls env qc calls s) := by
  induction calls generalizing s with
  | nil => exact .refl s
  | cons c rest ih =>
    have hrest := ih (s := poolSendAndWait env qc c.message c.sendType c.nodeId s)
      ((queryContext_poolSendAndWait c).trans hqc) ((inProgress_poolSendAndWait c).trans hp)
    have hfirst : Follows (Action.Sends (c :: rest) qc (s.validNodes env)) s
        (poolSendAndWait env qc c.message c.sendType c.nodeId s) := by
      refine ⟨?_, ?_, _, trace_poolSendAndWait c, ?_⟩
      · rw [poolSendAndWait_eq]
        rfl
      · rw [poolSendAndWait_eq]
        rfl
      · intro a ha
        rw [List.mem_reverse, List.mem_map] at ha
        obtain ⟨i, hi, rfl⟩ := ha
        exact ⟨c, List.mem_cons_self, i, (mem_sentAmong.1 hi).1, rfl⟩
    refine hfirst.trans (hrest.mono ?_)
    rintro a ⟨c', hc', i, hi, rfl⟩
    refine ⟨c', List.mem_cons_of_mem c hc', i, ?_, rfl⟩
    obtain ⟨hlt, hv⟩ := mem_validNodes.1 hi
    rw [validBackend_poolSendAndWait hqc hp hlt, Bool.and_eq_true] at hv
    exact mem_validNodes.2 ⟨hlt, hv.1⟩

/-! ## `parse_before_bind` -/

/-- The map of a context while the loop has dealt with some nodes: those that have parsed the
statement are left out. -/
def unparsedMap (c : QueryContext) (done : List NodeId) : NodeMap := fun j =>
  if j ∈ done then c.whereToSend j && c.queryState j == .unparsed else c.whereToSend j

/-- The state of the loop when it has dealt with some nodes. -/
def BeforeBind (env : Setup) (qc : QcId) (msg : BackendMsg) (s : Session) (done : List NodeId)
    (u : Session) : Prop :=
  ∃ new, u = (s.setMap qc (unparsedMap (s.contexts qc) done)).record new ∧
    ∀ a ∈ new, ∃ i ∈ s.validNodes env, a = .sent i msg qc

theorem unparsedMap_le {c : QueryContext} {done : List NodeId} (h : unparsedMap c done i = true) :
    c.whereToSend i = true := by
  unfold unparsedMap at h
  split at h
  · exact (Bool.and_eq_true_iff.1 h).1
  · exact h

theorem unparsedMap_nil (c : QueryContext) : unparsedMap c [] = c.whereToSend := by
  funext j
  simp [unparsedMap]

theorem validNodes_setMap (hraw : env.rawMode = false) (hqc : s.queryContext = some qc)
    (hp : s.inProgress = true) {map : NodeMap} :
    i ∈ (s.setMap qc map).validNodes env ↔
      i < env.numBackends ∧ map i = true ∧ env.isMyUp i = true := by
  refine (validNodes_of_current (s := s.setMap qc map) hraw hqc hp).trans ?_
  rw [setMap, contexts_setContext_self]
  rfl

theorem setMap_setMap (map map' : NodeMap) : (s.setMap qc map).setMap qc map' = s.setMap qc map' := by
  unfold setMap
  rw [setContext_setContext, contexts_setContext_self]
  rfl

theorem commitSkips_setMap (map : NodeMap) :
    (s.setMap qc map).commitSkips env qc i = s.commitSkips env qc i := by
  have hmaster : (s.setMap qc map).masterNodeId env = s.masterNodeId env := by
    unfold masterNodeId
    rw [show (s.setMap qc map).queryContext = s.queryContext from rfl]
    cases s.queryContext with
    | none => rfl
    | some q =>
      by_cases hq : q = qc
      · simp [hq, setMap, QueryContext.setMap]
      · simp [setMap, contexts_setContext_ne s _ hq]
  unfold commitSkips
  rw [hmaster]
  simp [setMap, QueryContext.setMap, setContext, tstate]

theorem BeforeBind.step {msg : BackendMsg} {done : List NodeId} {u : Session}
    (h : BeforeBind env qc msg s done u) (hraw : env.rawMode = false)
    (hqc : s.queryContext = some qc) (hp : s.inProgress = true)
    (hopen : ∀ i ∈ s.validNodes env, s.commitSkips env qc i = false) (hi : i ∉ done) :
    BeforeBind env qc msg s (i :: done) (parseBeforeBindStep env qc msg u i) := by
  obtain ⟨new, rfl, hnew⟩ := h
  have hcontext : ((s.setMap qc (unparsedMap (s.contexts qc) done)).record new).contexts qc =
      (s.contexts qc).setMap (unparsedMap (s.contexts qc) done) := contexts_setContext_self _ _ _
  have hmap : unparsedMap (s.contexts qc) done i = (s.contexts qc).whereToSend i := by
    simp [unparsedMap, hi]
  have hsub : ∀ j ∈ ((s.setMap qc (unparsedMap (s.contexts qc) done)).record new).validNodes env,
      j ∈ s.validNodes env := by
    intro j hj
    obtain ⟨hlt, hm, hup⟩ := (validNodes_setMap hraw hqc hp).1 hj
    exact (validNodes_of_current hraw hqc hp).2 ⟨hlt, unparsedMap_le hm, hup⟩
  unfold parseBeforeBindStep
  simp only [hcontext, QueryContext.setMap, hmap]
  split
  · rename_i hparse
    have hskip : ∀ j ∈ ((s.setMap qc (unparsedMap (s.contexts qc) done)).record new).validNodes env,
        ((s.setMap qc (unparsedMap (s.contexts qc) done)).record new).commitSkips env qc j = false :=
      fun j hj => (commitSkips_setMap (s := s) _).trans (hopen j (hsub j hj))
    obtain ⟨sent, hsent, hmem⟩ := record_poolSendAndWait hskip ⟨msg, 1, i⟩
    have hsame : unparsedMap (s.contexts qc) (i :: done) = unparsedMap (s.contexts qc) done := by
      funext j
      by_cases hj : j = i
      · simp only [unparsedMap, hj, hi, if_false, List.mem_cons_self, if_true, hparse]
        exact (Bool.and_eq_true_iff.1 hparse).1.symm
      · simp [unparsedMap, hj]
    refine ⟨sent ++ new, by rw [hsent, record_record, hsame], fun a ha => ?_⟩
    rcases List.mem_append.1 ha with ha | ha
    · obtain ⟨c, hc, j, hj, rfl⟩ := hmem a ha
      rw [List.mem_singleton.1 hc]
      exact ⟨j, hsub j hj, rfl⟩
    · exact hnew a ha
  · rename_i hparse
    refine ⟨new, ?_, hnew⟩
    have hnext : (fun j => if j = i then false else unparsedMap (s.contexts qc) done j) =
        unparsedMap (s.contexts qc) (i :: done) := by
      funext j
      by_cases hj : j = i
      · simpa [unparsedMap, hj] using hparse
      · simp [unparsedMap, hj]
    rw [hnext]
    change ((s.setMap qc _).setMap qc _).record new = _
    rw [setMap_setMap]

theorem BeforeBind.loop {msg : BackendMsg} (hraw : env.rawMode = false)
    (hqc : s.queryContext = some qc) (hp : s.inProgress = true)
    (hopen : ∀ i ∈ s.validNodes env, s.commitSkips env qc i = false) (todo done : List NodeId)
    {u : Session} (h : BeforeBind env qc msg s done u) (hnodup : todo.Nodup)
    (hnew : ∀ i ∈ todo, i ∉ done) :
    BeforeBind env qc msg s (todo.reverse ++ done)
      (todo.foldl (parseBeforeBindStep env qc msg) u) := by
  induction todo generalizing done u with
  | nil => exact h
  | cons i rest ih =>
    obtain ⟨hi, hrest⟩ := List.nodup_cons.1 hnodup
    have hstep := h.step hraw hqc hp hopen (hnew i List.mem_cons_self)
    have hloop := ih (i :: done) hstep hrest fun j hj => by
      rw [List.mem_cons, not_or]
      exact ⟨fun he => hi (he ▸ hj), hnew j (List.mem_cons_of_mem i hj)⟩
    rwa [List.reverse_cons, List.append_assoc]

/-- What `parse_before_bind` adds to the history: it sends the Parse to valid nodes, and those among
them that have not parsed the statement report that they have done so. -/
structure ParsedBefore (env : Setup) (m : SentMessage) (s : Session) (new : List Action) : Prop where
  actions : ∀ a ∈ new, (∃ i ∈ s.validNodes env, a = .sent i m.contents.toParse m.queryContext) ∨
    ∃ nodes, a = .completed m nodes ∧ ∀ i ∈ nodes, i ∈ s.validNodes env
  parsed : ∀ i ∈ s.validNodes env, (s.contexts m.queryContext).queryState i = .unparsed →
    ∃ nodes, Action.completed m nodes ∈ new ∧ i ∈ nodes

theorem parsedBefore_parseBeforeBind {m : SentMessage} (hraw : env.rawMode = false)
    (hqc : s.queryContext = some m.queryContext) (hp : s.inProgress = true)
    (hopen : ∀ i ∈ s.validNodes env, s.commitSkips env m.queryContext i = false)
    (h : parseBeforeBind env ans m s = some t) :
    ∃ new, t = s.record new ∧ ParsedBefore env m s new := by
  have hstart : BeforeBind env m.queryContext m.contents.toParse s [] s := by
    refine ⟨[], ?_, by simp⟩
    rw [unparsedMap_nil]
    exact (s.setContext_self m.queryContext).symm
  have hend := BeforeBind.loop hraw hqc hp hopen env.nodes [] hstart List.nodup_range (by simp)
  have hmap : ∀ i, i < env.numBackends → unparsedMap (s.contexts m.queryContext)
      (env.nodes.reverse ++ []) i = ((s.contexts m.queryContext).whereToSend i &&
        (s.contexts m.queryContext).queryState i == .unparsed) := by
    intro i hi
    simp [unparsedMap, hi]
  unfold parseBeforeBind at h
  simp only at h
  generalize env.nodes.foldl (parseBeforeBindStep env m.queryContext m.contents.toParse) s = u
    at hend h
  obtain ⟨new, rfl, hnew⟩ := hend
  generalize hdone : env.nodes.reverse ++ [] = done at hmap h
  have hwhere : (((s.setMap m.queryContext (unparsedMap (s.contexts m.queryContext) done)).record
      new).contexts m.queryContext).whereToSend = unparsedMap (s.contexts m.queryContext) done :=
    congrArg QueryContext.whereToSend (contexts_setContext_self _ _ _)
  -- the saved map is put back
  have hback : ∀ more : List Action,
      (((s.setMap m.queryContext (unparsedMap (s.contexts m.queryContext) done)).record more).setMap
        m.queryContext (s.contexts m.queryContext).whereToSend) = s.record more := by
    intro more
    change ((s.setMap _ _).setMap _ _).record more = _
    rw [setMap_setMap]
    exact congrArg (record more) (s.setContext_self m.queryContext)
  split at h
  · split at h
    · cases h
      refine ⟨_, hback (_ :: new), fun a ha => ?_, fun i hi hs => ?_⟩
      · rcases List.mem_cons.1 ha with rfl | ha
        · refine Or.inr ⟨_, rfl, fun i hi => ?_⟩
          obtain ⟨hlt, hm, hup⟩ := (validNodes_setMap hraw hqc hp).1 hi
          exact (validNodes_of_current hraw hqc hp).2 ⟨hlt, unparsedMap_le hm, hup⟩
        · exact Or.inl (hnew a ha)
      · obtain ⟨hlt, hm, hup⟩ := (validNodes_of_current hraw hqc hp).1 hi
        refine ⟨_, List.mem_cons_self, (validNodes_setMap hraw hqc hp).2 ⟨hlt, ?_, hup⟩⟩
        rw [hmap i hlt]
        simp [hm, hs]
    · cases h
  · rename_i hnone
    cases h
    refine ⟨_, hback new, fun a ha => Or.inl (hnew a ha), fun i hi hs => absurd ?_ hnone⟩
    obtain ⟨hlt, hm, -⟩ := (validNodes_of_current hraw hqc hp).1 hi
    refine List.any_eq_true.2 ⟨i, env.mem_nodes.2 hlt, ?_⟩
    rw [hwhere, hmap i hlt]
    simp [hm, hs]

end Session

end PgPool
