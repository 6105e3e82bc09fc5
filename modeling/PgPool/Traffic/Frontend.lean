import PgPool.Control.Frontend
import PgPool.Query.Routing
import PgPool.Traffic.Sending

/-!
# Where the messages from the frontend go

Each message is routed first, on a session that is still as it was in all that routing reads, and
then goes to valid nodes of the map.  `Routed` describes the session in between.
-/

namespace PgPool

/-- An action before a message is sent: pgpool's own, or the note of where the message goes. -/
def Action.Prepares (a : Action) : Prop := a.Internal ∨ ∃ m map, a = .routed m map

namespace Session

/-- What routing a context reads is the same in both sessions. -/
structure AsIn (qc : QcId) (s s₀ : Session) : Prop where
  conn : s₀.conn = s.conn
  list : s₀.messageList = s.messageList
  others : ∀ q, q ≠ qc → s₀.contexts q = s.contexts q
  writing : s₀.writingTransaction = s.writingTransaction
  failed : s₀.failedTransaction = s.failedTransaction
  isolation : s₀.transactionIsolation = s.transactionIsolation

/-- `u` has routed a context of `s` as a statement. -/
structure Routed (env : Setup) (lk : Lookups) (qc : QcId) (sql : String) (node : Node)
    (s u : Session) : Prop where
  conn : u.conn = s.conn
  reset : u.resetContext = s.resetContext
  others : ∀ q, q ≠ qc → u.contexts q = s.contexts q
  query : (u.contexts qc).originalQuery = sql
  tree : (u.contexts qc).parseTree = node
  map : ∃ s₀, AsIn qc s s₀ ∧ (u.contexts qc).whereToSend = nodesToSend env lk s₀ qc sql node
  master : ∀ i, NodeMap.first env (u.contexts qc).whereToSend = some i →
    (u.contexts qc).virtualMasterNodeId = i

variable {env : Setup} {ans : Answers} {lk : Lookups} {s t u : Session} {qc : QcId} {sql : String}
  {node : Node}

theorem contexts_poolWhereToSend_ne {q : QcId} (hq : q ≠ qc) :
    (poolWhereToSend env lk qc sql node s).contexts q = s.contexts q :=
  contexts_setContext_ne _ _ hq

theorem contexts_poolWhereToSend : (poolWhereToSend env lk qc sql node s).contexts qc =
    { s.contexts qc with
      whereToSend := nodesToSend env lk s qc sql node
      virtualMasterNodeId := (NodeMap.first env (nodesToSend env lk s qc sql node)).getD
        (s.contexts qc).virtualMasterNodeId } :=
  contexts_setContext_self _ _ _

/-- Routing on a session that is as `s` in all that matters. -/
theorem routed_poolWhereToSend {s₀ : Session} (h : AsIn qc s s₀)
    (reset : s₀.resetContext = s.resetContext)
    (query : (s₀.contexts qc).originalQuery = sql) (tree : (s₀.contexts qc).parseTree = node) :
    Routed env lk qc sql node s (poolWhereToSend env lk qc sql node s₀) where
  conn := h.conn
  reset := reset
  others q hq := (contexts_poolWhereToSend_ne hq).trans (h.others q hq)
  query := by rw [contexts_poolWhereToSend]; exact query
  tree := by rw [contexts_poolWhereToSend]; exact tree
  map := ⟨s₀, h, by rw [contexts_poolWhereToSend]⟩
  master i hi := by
    rw [contexts_poolWhereToSend] at hi ⊢
    simp [hi]

/-- A session that differs from the routed one in other parts. -/
theorem Routed.of_eq {v : Session} (h : Routed env lk qc sql node s u) (conn : v.conn = u.conn)
    (reset : v.resetContext = u.resetContext)
    (others : ∀ q, q ≠ qc → v.contexts q = u.contexts q)
    (query : (v.contexts qc).originalQuery = (u.contexts qc).originalQuery)
    (tree : (v.contexts qc).parseTree = (u.contexts qc).parseTree)
    (map : (v.contexts qc).whereToSend = (u.contexts qc).whereToSend)
    (master : (v.contexts qc).virtualMasterNodeId = (u.contexts qc).virtualMasterNodeId) :
    Routed env lk qc sql node s v where
  conn := conn.trans h.conn
  reset := reset.trans h.reset
  others q hq := (others q hq).trans (h.others q hq)
  query := query.trans h.query
  tree := tree.trans h.tree
  map := by
    obtain ⟨s₀, hs, hm⟩ := h.map
    exact ⟨s₀, hs, map.trans hm⟩
  master i hi := by
    rw [map] at hi
    exact master.trans (h.master i hi)

theorem first_of_singleton {i : NodeId} (hi : i < env.numBackends) :
    NodeMap.first env (NodeMap.clear.set i) = some i := by
  have hself : NodeMap.clear.set i i = true := NodeMap.set_self hi
  cases hf : NodeMap.first env (NodeMap.clear.set i) with
  | none => exact absurd hself (by simpa using List.find?_eq_none.1 hf i (env.mem_nodes.2 hi))
  | some j => rw [NodeMap.set_clear (List.find?_some hf)]

/-- COMMIT and ROLLBACK go to the primary in master/slave mode. -/
theorem nodesToSend_commit (hms : env.masterSlaveMode = true) (hc : isCommitQuery node = true) :
    nodesToSend env lk s qc sql node = NodeMap.clear.set env.primary := by
  unfold nodesToSend
  split
  · rfl
  · cases node with
    | transactionStmt kind options =>
      have hmode : modeNodes env lk s sql (.transactionStmt kind options) =
          masterSlaveNodes env lk s sql (.transactionStmt kind options) := by
        rw [modeNodes, env.rawMode_of_masterSlave hms]
        simp [hms]
      rw [hmode]
      rfl
    | _ => cases hc

theorem Routed.commitAlone (h : Routed env lk qc sql node s u) :
    CommitAlone env (u.contexts qc) := by
  intro hms hc i hi
  obtain ⟨s₀, -, hmap⟩ := h.map
  rw [h.tree] at hc
  have hset := hmap.trans (nodesToSend_commit hms hc)
  rw [hset] at hi
  have hmaster := h.master env.primary (by rw [hset]; exact first_of_singleton env.primary_lt)
  rw [hmaster]
  exact NodeMap.set_clear hi

/-! ## Starting a query -/

/-- A new context is started on a session that is otherwise the same. -/
theorem asIn_startQuery (node : Node) :
    AsIn s.nextContext s (s.initQueryContext.2.startQuery env s.nextContext sql node) where
  conn := rfl
  list := rfl
  others q hq := by
    change (if q = s.nextContext then _ else if q = s.nextContext then _ else s.contexts q) = _
    rw [if_neg hq, if_neg hq]
  writing := rfl
  failed := rfl
  isolation := rfl

theorem contexts_startQuery (node : Node) :
    (s.initQueryContext.2.startQuery env s.nextContext sql node).contexts s.nextContext =
      { QueryContext.zeroed with
        originalQuery := sql
        parseTree := node
        virtualMasterNodeId := env.realMasterNodeId } := by
  simp [startQuery, setQueryInProgress, setQueryContext, initQueryContext, setContext,
    QueryContext.zeroed]

/-- The session in which a simple query or a function call is routed. -/
def queryRouted (env : Setup) (lk : Lookups) (sql : String) (node : Node) (s : Session) : Session :=
  poolWhereToSend env lk s.nextContext sql node
    (s.initQueryContext.2.startQuery env s.nextContext sql node)

theorem routed_queryRouted :
    Routed env lk s.nextContext sql node s (queryRouted env lk sql node s) :=
  routed_poolWhereToSend (asIn_startQuery node) rfl (by rw [contexts_startQuery])
    (by rw [contexts_startQuery])

theorem control_queryRouted :
    (queryRouted env lk sql node s).control = s.control.startQuery sql node :=
  (control_poolWhereToSend _ _).trans (control_startQuery sql)

/-! ## Simple queries -/

theorem quiet_startMultiNode (h : startMultiNode env ans qc node s = some t) :
    Quiet Action.Internal s t := by
  unfold startMultiNode at h
  split at h
  · have hbegin : Quiet Action.Internal s (startInternalTransaction env ans node s).1 :=
      ownCommands_quiet.startInternalTransaction
    split at h
    · cases h
    · rename_i u hu
      rw [hu] at hbegin
      split at h
      · exact hbegin.trans (ownCommands_quiet.insertLock h)
      · cases h
        exact hbegin
  · cases h
    exact .refl _

theorem quiet_beginV2 {P : Action → Prop} : Quiet P s (s.beginV2 env node) := by
  unfold beginV2
  split
  · exact ⟨.of_eq rfl rfl rfl, rfl⟩
  · exact .refl s

/-- The session that is about to send a simple query. -/
structure QueryReady (env : Setup) (ans : Answers) (sql : String) (s v : Session) : Prop where
  others : ∀ q, q ≠ s.nextContext → v.contexts q = s.contexts q
  query : (v.contexts s.nextContext).originalQuery = sql
  tree : (v.contexts s.nextContext).parseTree = env.statement sql
  map : (v.contexts s.nextContext).whereToSend =
    ((queryRouted env ans.lookups sql (env.statement sql) s).contexts s.nextContext).whereToSend
  master : (v.contexts s.nextContext).virtualMasterNodeId =
    ((queryRouted env ans.lookups sql (env.statement sql) s).contexts
      s.nextContext).virtualMasterNodeId
  follows : Follows Action.Prepares s v
  current : v.queryContext = some s.nextContext
  progress : v.inProgress = true
  noted : ∀ name query, env.statement sql = .prepareStmt name query → ∃ m,
    v.uncompletedMessage = some m ∧
      Action.routed m (v.contexts s.nextContext).whereToSend ∈ v.conn.trace

theorem notePrepare_spec (contents : String) :
    Follows Action.Prepares s (s.notePrepare qc contents node) ∧
      (s.notePrepare qc contents node).contexts = s.contexts ∧
      ∀ name query, node = .prepareStmt name query → ∃ m,
        (s.notePrepare qc contents node).uncompletedMessage = some m ∧
          Action.routed m (s.contexts qc).whereToSend ∈ (s.notePrepare qc contents node).conn.trace := by
  cases node with
  | prepareStmt name query =>
    refine ⟨⟨rfl, rfl, [_], rfl, ?_⟩, rfl, ?_⟩
    · intro a ha
      rw [List.mem_singleton.1 ha]
      exact Or.inr ⟨_, _, rfl⟩
    · rintro _ _ -
      exact ⟨_, rfl, List.mem_cons_self⟩
  | _ => exact ⟨.refl s, rfl, nofun⟩

theorem current_notePrepare (contents : String) :
    (s.notePrepare qc contents node).queryContext = s.queryContext := by
  cases node <;> rfl

theorem inProgress_notePrepare (contents : String) :
    (s.notePrepare qc contents node).inProgress = s.inProgress := by
  cases node <;> rfl

theorem conn_rewriteQuery : (rewriteQuery env ans qc node s).conn = s.conn ∧
    (rewriteQuery env ans qc node s).resetContext = s.resetContext := by
  unfold rewriteQuery
  split <;> exact ⟨rfl, rfl⟩

theorem contexts_rewriteQuery_ne {q : QcId} (hq : q ≠ qc) :
    (rewriteQuery env ans qc node s).contexts q = s.contexts q := by
  unfold rewriteQuery
  split
  · exact contexts_setContext_ne _ _ hq
  · rfl

theorem contexts_rewriteQuery : ∃ query, (rewriteQuery env ans qc node s).contexts qc =
    { s.contexts qc with rewrittenQuery := query } := by
  unfold rewriteQuery
  split
  · exact ⟨_, contexts_setContext_self _ _ _⟩
  · exact ⟨_, rfl⟩

/-- What `SimpleQuery` does to a routed session before it sends the query. -/
theorem queryReady_routed {r w : Session} (hroute : queryRouted env ans.lookups sql node s = r)
    (hnode : node = env.statement sql)
    (hw : startMultiNode env ans s.nextContext node r = some w) :
    QueryReady env ans sql s (rewriteQuery env ans s.nextContext node
      ((w.beginV2 env node).notePrepare s.nextContext sql node)) := by
  have hr : Routed env ans.lookups s.nextContext sql node s r := hroute ▸ routed_queryRouted
  have hcontrol : (w.beginV2 env node).control = s.control.startQuery sql node := by
    rw [control_beginV2, control_startMultiNode hw, ← hroute]
    exact control_queryRouted
  have hquiet : Quiet Action.Internal r (w.beginV2 env node) :=
    (quiet_startMultiNode hw).trans quiet_beginV2
  generalize w.beginV2 env node = x at hcontrol hquiet
  obtain ⟨hfollow, hcontexts, hnoted⟩ :
      Follows Action.Prepares x (x.notePrepare s.nextContext sql node) ∧ _ ∧ _ :=
    notePrepare_spec sql
  have hcurrent : (x.notePrepare s.nextContext sql node).queryContext = some s.nextContext :=
    (current_notePrepare sql).trans (congrArg Control.queryContext hcontrol)
  have hprogress : (x.notePrepare s.nextContext sql node).inProgress = true :=
    (inProgress_notePrepare sql).trans (congrArg Control.inProgress hcontrol)
  generalize x.notePrepare s.nextContext sql node = y at hfollow hcontexts hnoted hcurrent hprogress
  have hrewrite : (rewriteQuery env ans s.nextContext node y).control = y.control :=
    control_rewriteQuery
  obtain ⟨hconn, hreset⟩ : (rewriteQuery env ans s.nextContext node y).conn = y.conn ∧ _ :=
    conn_rewriteQuery
  obtain ⟨rewritten, hself⟩ : ∃ query,
      (rewriteQuery env ans s.nextContext node y).contexts s.nextContext =
        { y.contexts s.nextContext with rewrittenQuery := query } := contexts_rewriteQuery
  have hplace : y.contexts s.nextContext = r.contexts s.nextContext := by
    rw [hcontexts, hquiet.contexts]
  refine ⟨?_, ?_, ?_, ?_, ?_, ?_, ?_, ?_, ?_⟩
  · intro q hq
    rw [contexts_rewriteQuery_ne hq, hcontexts, hquiet.contexts]
    exact hr.others q hq
  · rw [hself, hplace]
    exact hr.query
  · rw [hself, hplace, ← hnode]
    exact hr.tree
  · rw [hself, hplace, ← hnode, hroute]
  · rw [hself, hplace, ← hnode, hroute]
  · have hsr : Follows Action.Prepares s r := .of_eq (by rw [hr.conn]) hr.reset (by rw [hr.conn])
    have hrx : Follows Action.Prepares r x := hquiet.toFollows.mono fun _ => Or.inl
    exact ((hsr.trans hrx).trans hfollow).trans
      (.of_eq (by rw [hconn]) hreset (by rw [hconn]))
  · exact (congrArg Control.queryContext hrewrite).trans hcurrent
  · exact (congrArg Control.inProgress hrewrite).trans hprogress
  · intro name query hprep
    obtain ⟨m, hm, hmem⟩ := hnoted name query (hnode.trans hprep)
    refine ⟨m, (congrArg Control.uncompletedMessage hrewrite).trans hm, ?_⟩
    rw [hconn, hself]
    rw [← hcontexts] at hmem
    exact hmem

/-- A simple query that is answered on the spot, or about to be sent. -/
theorem simpleQuery_cases (h : simpleQuery env ans sql s = some t) :
    (t.conn = s.conn ∧ t.resetContext = s.resetContext ∧ t.queryContext = none ∧
        ∀ q, q ≠ s.nextContext → t.contexts q = s.contexts q) ∨
      ∃ v string, QueryReady env ans sql s v ∧ t = sendCalls env s.nextContext
        (queryCalls env (env.statement sql) string (v.masterNodeId env)) v := by
  have hinit : AsIn s.nextContext s
      (s.initQueryContext.2.startQuery env s.nextContext sql (env.statement sql)) :=
    asIn_startQuery _
  unfold simpleQuery at h
  simp only [show s.initQueryContext.1 = s.nextContext from rfl] at h
  split at h
  · cases h
    refine Or.inl ⟨rfl, rfl, rfl, fun q hq => ?_⟩
    change (if q = s.nextContext then QueryContext.zeroed else s.contexts q) = _
    rw [if_neg hq]
  · split at h
    · cases h
      exact Or.inl ⟨rfl, rfl, rfl, hinit.others⟩
    · split at h
      · cases h
        exact Or.inl ⟨rfl, rfl, rfl, hinit.others⟩
      · refine Or.inr ?_
        unfold routeQuery at h
        split at h
        · cases h
        · rename_i w hw
          cases h
          exact ⟨_, _, queryReady_routed rfl rfl hw, rfl⟩

/-! ## Parse -/

theorem routed_parseStart {name stmt : String} {m : SentMessage}
    (h : parseStart env ans name stmt s = (m, u)) :
    Routed env ans.lookups s.nextContext stmt (env.statement stmt) s u ∧
      (u.contexts s.nextContext).queryState = fun _ => .unparsed := by
  have hstart : AsIn s.nextContext s
      (s.initQueryContext.2.startQuery env s.nextContext stmt (env.statement stmt)) :=
    asIn_startQuery _
  have hself : (s.initQueryContext.2.startQuery env s.nextContext stmt
      (env.statement stmt)).contexts s.nextContext = _ := contexts_startQuery _
  have hreset : (s.initQueryContext.2.startQuery env s.nextContext stmt
      (env.statement stmt)).resetContext = s.resetContext := rfl
  unfold parseStart at h
  simp only [show s.initQueryContext.1 = s.nextContext from rfl] at h
  generalize s.initQueryContext.2.startQuery env s.nextContext stmt (env.statement stmt) = x
    at hstart hself hreset h
  have hasIn : ∀ o : Option SentMessage, AsIn s.nextContext s
      ((x.createSentMessage .P (.parse name stmt) 0 name s.nextContext).2.setUncompletedMessage o) :=
    fun o => ⟨hstart.conn, hstart.list, hstart.others, hstart.writing, hstart.failed,
      hstart.isolation⟩
  have hr : ∀ o, Routed env ans.lookups s.nextContext stmt (env.statement stmt) s
      (poolWhereToSend env ans.lookups s.nextContext stmt (env.statement stmt)
        ((x.createSentMessage .P (.parse name stmt) 0 name s.nextContext).2.setUncompletedMessage
          o)) := fun o =>
    routed_poolWhereToSend (hasIn o) hreset (congrArg QueryContext.originalQuery hself)
      (congrArg QueryContext.parseTree hself)
  have hstate : ∀ o, ((poolWhereToSend env ans.lookups s.nextContext stmt (env.statement stmt)
      ((x.createSentMessage .P (.parse name stmt) 0 name s.nextContext).2.setUncompletedMessage
        o)).contexts s.nextContext).queryState = fun _ => .unparsed := by
    intro o
    rw [contexts_poolWhereToSend]
    exact congrArg QueryContext.queryState hself
  have hrewrite : ∀ (r : Session) (o : Option SentMessage),
      ((r.setRewrittenQuery s.nextContext ans.rewritten).setUncompletedMessage o).contexts
        s.nextContext = { r.contexts s.nextContext with rewrittenQuery := ans.rewritten } :=
    fun r _ => contexts_setContext_self r _ _
  split at h
  · obtain ⟨-, rfl⟩ := Prod.mk.inj h
    refine ⟨(hr _).of_eq rfl rfl (fun q hq => contexts_setContext_ne _ _ hq) ?_ ?_ ?_ ?_, ?_⟩
    · rw [hrewrite]
    · rw [hrewrite]
    · rw [hrewrite]
    · rw [hrewrite]
    · rw [hrewrite]
      exact hstate _
  · obtain ⟨-, rfl⟩ := Prod.mk.inj h
    exact ⟨hr _, hstate _⟩

/-- What Parse does between routing the statement and sending it: pgpool's own commands, in
replication mode after a Sync that is answered. -/
inductive ParseReady (env : Setup) (s v : Session) : Prop
  | direct (quiet : Quiet Action.Internal s v)
  | synced (quiet : Quiet Action.Internal
      ((s.emit (.synced (s.validNodes env))).emit (.ready (s.validNodes env))) v)

theorem ParseReady.contexts {v : Session} (h : ParseReady env s v) : v.contexts = s.contexts := by
  cases h with
  | direct quiet => exact quiet.contexts
  | synced quiet => exact quiet.contexts

theorem ParseReady.reset {v : Session} (h : ParseReady env s v) :
    v.resetContext = s.resetContext := by
  cases h with
  | direct quiet => exact quiet.reset
  | synced quiet => exact quiet.reset

theorem ParseReady.trans {v w : Session} (h : ParseReady env s v)
    (hq : Quiet Action.Internal v w) : ParseReady env s w := by
  cases h with
  | direct quiet => exact .direct (quiet.trans hq)
  | synced quiet => exact .synced (quiet.trans hq)

theorem parseReady_parseSync (h : parseSync env ans s = some t) : ParseReady env s t := by
  unfold parseSync at h
  split at h
  · split at h
    · cases h
    · split at h
      · cases h
      · rename_i w hw
        cases h
        exact .synced ((quiet_readyForQuery hw).trans (.of_eq rfl rfl rfl))
  · cases h
    exact .direct (.refl _)

theorem quiet_parseLock (h : parseLock env ans node s = some t) : Quiet Action.Internal s t := by
  unfold parseLock at h
  split at h
  · have hstart : Quiet Action.Internal s
        (if isStrictQuery node then (startInternalTransaction env ans node s).1 else s) := by
      split
      · exact ownCommands_quiet.startInternalTransaction
      · exact .refl s
    simp only at h
    split at h
    · exact hstart.trans (ownCommands_quiet.insertLock h)
    · cases h
      exact hstart
  · cases h
    exact .refl _

/-- The session that is about to send a Parse, for a message whose statement has been routed. -/
structure ParseSent (env : Setup) (ans : Answers) (name stmt : String) (m : SentMessage)
    (s u v : Session) : Prop where
  start : parseStart env ans name stmt s = (m, u)
  ready : ParseReady env (u.emit (.routed m (u.contexts m.queryContext).whereToSend)) v
  control : v.control = u.control

theorem parse_cases {name stmt : String} (hx : s.doingExtendedQueryMessage = true)
    (h : parse env ans name stmt s = some t) :
    ∃ m u v, ParseSent env ans name stmt m s u v ∧
      t = sendCalls env m.queryContext
        (parseCalls env ans m.contents.toParse (v.masterNodeId env)) v := by
  unfold parse at h
  cases hps : parseStart env ans name stmt s with
  | mk m u =>
    obtain ⟨-, hu⟩ := control_parseStart hps
    rw [hps] at h
    simp only at h
    cases hs : parseSync env ans (u.emit (.routed m (u.contexts m.queryContext).whereToSend)) with
    | none => simp [hs] at h
    | some v =>
      simp only [hs] at h
      cases hl : parseLock env ans (env.statement stmt) v with
      | none => simp [hl] at h
      | some w =>
        simp only [hl, Option.some.injEq] at h
        refine ⟨m, u, w, ⟨hps, (parseReady_parseSync hs).trans (quiet_parseLock hl), ?_⟩, h.symm⟩
        have hx' : u.doingExtendedQueryMessage = true :=
          (congrArg Control.doingExtendedQueryMessage hu).trans hx
        have hp' : u.inProgress = true := congrArg Control.inProgress hu
        rw [control_parseLock hl, control_parseSync (s := u.emit _) hx' hp' hs, control_emit]

/-! ## Bind, Describe, Execute and Close -/

/-- The message that a Bind attempts. -/
def boundMessage (portal stmtName : String) (params : List String) (pm : SentMessage)
    (s : Session) : SentMessage :=
  ⟨s.nextMessage, .B, .bind portal stmtName params, pm.numTsparams, portal, pm.queryContext⟩

/-- The session in which a Bind is routed. -/
def bindRouted (env : Setup) (ans : Answers) (portal stmtName : String) (params : List String)
    (pm : SentMessage) (s : Session) : Session :=
  poolWhereToSend env ans.lookups pm.queryContext (s.contexts pm.queryContext).originalQuery
    (s.contexts pm.queryContext).parseTree
    (((s.createSentMessage .B (.bind portal stmtName params) pm.numTsparams portal
      pm.queryContext).2.setUncompletedMessage
        (some (boundMessage portal stmtName params pm s))).setQueryContext pm.queryContext)

theorem bindStart_eq (portal stmtName : String) (params : List String) (pm : SentMessage) :
    bindStart env ans portal stmtName params pm s =
      (bindRouted env ans portal stmtName params pm s).emit
        (.routed (boundMessage portal stmtName params pm s)
          ((bindRouted env ans portal stmtName params pm s).contexts pm.queryContext).whereToSend) :=
  rfl

theorem routed_bindRouted (portal stmtName : String) (params : List String) (pm : SentMessage) :
    Routed env ans.lookups pm.queryContext (s.contexts pm.queryContext).originalQuery
      (s.contexts pm.queryContext).parseTree s (bindRouted env ans portal stmtName params pm s) ∧
    ((bindRouted env ans portal stmtName params pm s).contexts pm.queryContext).queryState =
      (s.contexts pm.queryContext).queryState := by
  refine ⟨routed_poolWhereToSend ⟨rfl, rfl, fun _ _ => rfl, rfl, rfl, rfl⟩ rfl rfl rfl, ?_⟩
  rw [bindRouted, contexts_poolWhereToSend]
  rfl

theorem control_bindRouted (portal stmtName : String) (params : List String) (pm : SentMessage) :
    (bindRouted env ans portal stmtName params pm s).control =
      (s.control.attempt (boundMessage portal stmtName params pm s)).setCurrent pm.queryContext :=
  control_poolWhereToSend _ _

theorem routed_reroute (m : SentMessage) :
    Routed env ans.lookups m.queryContext (s.contexts m.queryContext).originalQuery
      (s.contexts m.queryContext).parseTree s (reroute env ans m s) ∧
    ((reroute env ans m s).contexts m.queryContext).queryState =
      (s.contexts m.queryContext).queryState := by
  refine ⟨routed_poolWhereToSend ⟨rfl, rfl, fun _ _ => rfl, rfl, rfl, rfl⟩ rfl rfl rfl, ?_⟩
  rw [reroute, contexts_poolWhereToSend]
  rfl

theorem describe_cases {target : Target} {name : String}
    (h : describe env ans target name s = some t) :
    ∃ m, targetMessage target name s = some m ∧ t = sendCalls env m.queryContext
      (masterFirst (.describe target name) ((reroute env ans m s).masterNodeId env))
      (reroute env ans m s) := by
  unfold describe at h
  cases hm : targetMessage target name s with
  | none => simp [hm] at h
  | some m =>
    simp only [hm, Option.some.injEq] at h
    exact ⟨m, rfl, h.symm⟩

theorem execute_cases {portal : String} (h : execute env ans portal s = some t) :
    ∃ m, s.getSentMessage .B portal = some m ∧ t = sendCalls env m.queryContext
      (executeCalls env ans ((reroute env ans m s).contexts m.queryContext).parseTree portal
        ((reroute env ans m s).masterNodeId env)) (reroute env ans m s) := by
  unfold execute at h
  cases hm : s.getSentMessage .B portal with
  | none => simp [hm] at h
  | some m =>
    simp only [hm, Option.some.injEq] at h
    exact ⟨m, rfl, h.symm⟩

theorem close_cases {target : Target} {name : String} (h : close env target name s = some t) :
    ∃ m v, targetMessage target name s = some m ∧
      v = (s.setUncompletedMessage (some m)).setQueryContext m.queryContext ∧
      t = sendCalls env m.queryContext (masterFirst (.close target name) (v.masterNodeId env)) v := by
  unfold close at h
  cases hm : targetMessage target name s with
  | none => simp [hm] at h
  | some m =>
    simp only [hm, Option.some.injEq] at h
    exact ⟨m, _, rfl, rfl, h.symm⟩

end Session

end PgPool
