import PgPool.Control.Basic

/-!
# Messages from the frontend and the control part

What each message from the frontend does to the control part of a session.  `Received` has one case
for each outcome.
-/

namespace PgPool

/-- A message that is attempted on behalf of a new context. -/
structure NewMessage (c : Control) (kind : MsgKind) (name : String) (m : SentMessage) : Prop where
  id : m.id = c.nextMessage
  kind : m.kind = kind
  name : m.name = name
  queryContext : m.queryContext = c.nextContext

/-- A Bind that is attempted on behalf of the context of its statement. -/
structure NewBind (c : Control) (portal stmtName : String) (pm m : SentMessage) : Prop where
  found : pm ∈ c.messageList
  statement : pm.kind ≠ .B
  stmtName : pm.name = stmtName
  id : m.id = c.nextMessage
  kind : m.kind = .B
  name : m.name = portal
  queryContext : m.queryContext = pm.queryContext

/-- What a message from the frontend does to the control part while no query is in progress. -/
inductive Received (env : Setup) (c : Control) : FrontendMsg → Control → Prop
  | ignored {msg : FrontendMsg} (ignore : c.ignoreTillSync = true) : Received env c msg c
  | answered {sql : String} (text : String) (node : Node) (skip : Bool) :
      Received env c (.query sql) ((c.setExtended false).answerQuery text node skip)
  | query {sql : String} :
      Received env c (.query sql) ((c.setExtended false).simpleQuery sql (env.statement sql))
  | parse {name stmt : String} {m : SentMessage} (new : NewMessage c .P name m) :
      Received env c (.parse name stmt)
        ((c.startExtended.startQuery stmt (env.statement stmt)).attempt m)
  | bind {portal stmtName : String} {params : List String} {pm m : SentMessage}
      (new : NewBind c portal stmtName pm m) :
      Received env c (.bind portal stmtName params)
        ((c.startExtended.attempt m).setCurrent pm.queryContext)
  | describe {target : Target} {name : String} {m : SentMessage} (found : m ∈ c.messageList) :
      Received env c (.describe target name) (c.startExtended.setCurrent m.queryContext)
  | execute {portal : String} {m : SentMessage} (found : m ∈ c.messageList) :
      Received env c (.execute portal) (c.startExtended.setCurrent m.queryContext)
  | close {target : Target} {name : String} {m : SentMessage} (found : m ∈ c.messageList) :
      Received env c (.close target name)
        ((((c.setExtended false).setInProgress true).setUncompleted (some m)).setCurrent
          m.queryContext)
  | sync : Received env c .sync (c.startExtended.setIgnore false)
  | functionCall :
      Received env c .functionCall
        ((c.setExtended false).startQuery "INSERT INTO foo VALUES(1)" functionCallQuery)
  | forward {message : ForwardedMsg} : Received env c (.forward message) (c.setExtended false)

namespace Session

variable {env : Setup} {ans : Answers} {s t : Session} {qc : QcId} {node : Node}

/-! ## Simple queries -/

/-- Starting a query on a context that has just been allocated. -/
theorem control_startQuery (sql : String) :
    (s.initQueryContext.2.startQuery env s.nextContext sql node).control =
      s.control.startQuery sql node := by
  have hsame : ∀ q, q ≠ s.nextContext →
      (s.initQueryContext.2.startQuery env s.nextContext sql node).contexts q = s.contexts q := by
    intro q hq
    change (if q = s.nextContext then _ else if q = s.nextContext then _ else s.contexts q) = _
    rw [if_neg hq, if_neg hq]
  have hnew : (s.initQueryContext.2.startQuery env s.nextContext sql node).contexts s.nextContext =
      { QueryContext.zeroed with
        originalQuery := sql
        parseTree := node
        virtualMasterNodeId := env.realMasterNodeId } := by
    simp [startQuery, setQueryInProgress, setQueryContext, initQueryContext, setContext,
      QueryContext.zeroed]
  have h : (fun q => (((s.initQueryContext.2.startQuery env s.nextContext sql node).contexts
      q).originalQuery, ((s.initQueryContext.2.startQuery env s.nextContext sql node).contexts
      q).parseTree)) = fun q => if q = s.nextContext then (sql, node) else
        ((s.contexts q).originalQuery, (s.contexts q).parseTree) := by
    funext q
    by_cases hq : q = s.nextContext
    · rw [hq, hnew, if_pos rfl]
    · rw [hsame q hq, if_neg hq]
  unfold control Control.startQuery
  rw [h]
  rfl

theorem control_startMultiNode (h : startMultiNode env ans qc node s = some t) :
    t.control = s.control := by
  unfold startMultiNode at h
  split at h
  · cases hb : startInternalTransaction env ans node s with
    | mk u ok =>
      have hu : u.control = s.control := by
        rw [show u = (startInternalTransaction env ans node s).1 by rw [hb]]
        exact control_startInternalTransaction
      rw [hb] at h
      cases ok with
      | false => cases h
      | true =>
        simp only at h
        split at h
        · exact (ownCommands_control.insertLock h).trans hu
        · cases h
          exact hu
  · cases h
    rfl

@[simp] theorem control_beginV2 : (s.beginV2 env node).control = s.control := by
  unfold beginV2
  split <;> rfl

@[simp] theorem control_rewriteQuery : (rewriteQuery env ans qc node s).control = s.control := by
  unfold rewriteQuery
  split
  · exact control_setRewrittenQuery _
  · rfl

@[simp] theorem control_sendQuery : (sendQuery env ans qc node s).control = s.control := by
  simp [sendQuery]

theorem control_routeQuery {sql : String} {c : Control} (hs : s.control = c.startQuery sql node)
    (h : routeQuery env ans c.nextContext sql node s = some t) :
    t.control = c.simpleQuery sql node := by
  unfold routeQuery at h
  cases hm : startMultiNode env ans c.nextContext node
      (poolWhereToSend env ans.lookups c.nextContext sql node s) with
  | none => simp [hm] at h
  | some u =>
    simp only [hm, Option.some.injEq] at h
    have hu : (u.beginV2 env node).control = c.startQuery sql node := by
      rw [control_beginV2, control_startMultiNode hm, control_poolWhereToSend, hs]
    rw [← h, control_sendQuery]
    unfold notePrepare Control.simpleQuery
    cases node with
    | prepareStmt name query =>
      have hid : (u.beginV2 env (.prepareStmt name query)).nextMessage = c.nextMessage :=
        congrArg Control.nextMessage hu
      simp only [createSentMessage, hid]
      rw [← hu]
      simp only [Control.attempt, ← hid]
      rfl
    | _ => exact hu

/-- Destroying a context that has just been allocated. -/
theorem control_initQueryContext :
    s.initQueryContext.2.control.queryContextDestroy s.nextContext =
      s.control.answerQuery "" .null false := by
  have h : (fun q => ((s.initQueryContext.2.contexts q).originalQuery,
      (s.initQueryContext.2.contexts q).parseTree)) = fun q => if q = s.nextContext then
        ("", Node.null) else ((s.contexts q).originalQuery, (s.contexts q).parseTree) := by
    funext q
    by_cases hq : q = s.nextContext <;> simp [initQueryContext, QueryContext.zeroed, hq]
  unfold control Control.answerQuery
  rw [h]
  simp only [Bool.or_false]
  rfl

theorem setSkip_answerQuery (c : Control) (sql : String) (node : Node) :
    (c.answerQuery sql node false).setSkip true = c.answerQuery sql node true := by
  simp [Control.answerQuery, Control.setSkip]

/-- A simple query is answered on the spot, or it is sent. -/
theorem control_simpleQuery {sql : String} (h : simpleQuery env ans sql s = some t) :
    (∃ text node skip, t.control = s.control.answerQuery text node skip) ∨
      t.control = s.control.simpleQuery sql (env.statement sql) := by
  have hstart : (s.initQueryContext.2.startQuery env s.nextContext sql (env.statement sql)).control =
      s.control.startQuery sql (env.statement sql) := control_startQuery sql
  have hanswer : (s.control.startQuery sql (env.statement sql)).queryContextDestroy s.nextContext =
      s.control.answerQuery sql (env.statement sql) false := by
    simp only [Control.answerQuery, Bool.or_false]
    rfl
  unfold simpleQuery at h
  simp only [show s.initQueryContext.1 = s.nextContext from rfl] at h
  split at h
  · cases h
    refine Or.inl ⟨"", .null, true, ?_⟩
    rw [control_setSkipReadingFromBackends, control_queryContextDestroy, control_initQueryContext,
      setSkip_answerQuery]
  · split at h
    · cases h
      refine Or.inl ⟨sql, env.statement sql, false, ?_⟩
      rw [control_queryContextDestroy, hstart, hanswer]
    · split at h
      · cases h
        refine Or.inl ⟨sql, env.statement sql, true, ?_⟩
        rw [control_setSkipReadingFromBackends, control_queryContextDestroy, hstart, hanswer,
          setSkip_answerQuery]
      · exact Or.inr (control_routeQuery hstart h)

/-! ## The extended protocol -/

/-- Parse up to the point where the message is to be sent. -/
theorem control_parseStart {name stmt : String} {m : SentMessage} {u : Session}
    (h : parseStart env ans name stmt s = (m, u)) :
    NewMessage s.control .P name m ∧
      u.control = (s.control.startQuery stmt (env.statement stmt)).attempt m := by
  have hstart : (s.initQueryContext.2.startQuery env s.nextContext stmt (env.statement stmt)).control =
      s.control.startQuery stmt (env.statement stmt) := control_startQuery stmt
  have hcreate : ∀ (u : Session) (m : SentMessage),
      (u.createSentMessage .P (.parse name stmt) 0 name s.nextContext).2.control.setUncompleted
        (some m) = u.control.attempt m := fun _ _ => rfl
  unfold parseStart at h
  simp only [show s.initQueryContext.1 = s.nextContext from rfl] at h
  split at h
  · obtain ⟨rfl, rfl⟩ := Prod.mk.inj h
    refine ⟨⟨rfl, rfl, rfl, rfl⟩, ?_⟩
    rw [control_setUncompletedMessage, control_setRewrittenQuery, control_poolWhereToSend,
      control_setUncompletedMessage]
    exact (hcreate _ _).trans (by rw [hstart])
  · obtain ⟨rfl, rfl⟩ := Prod.mk.inj h
    refine ⟨⟨rfl, rfl, rfl, rfl⟩, ?_⟩
    rw [control_poolWhereToSend, control_setUncompletedMessage, hcreate, hstart]

theorem control_parseSync (hx : s.doingExtendedQueryMessage = true) (hp : s.inProgress = true)
    (h : parseSync env ans s = some t) : t.control = s.control := by
  unfold parseSync at h
  split at h
  · split at h
    · cases h
    · cases hr : readyForQuery env ans (s.emit (.synced (s.validNodes env))) with
      | none => simp [hr] at h
      | some u =>
        simp only [hr, Option.some.injEq] at h
        have hu : u.control = s.control.endQuery := by
          rw [control_readyForQuery hr, control_emit]
          simp [Control.readyForQuery, control, hx]
        have hset : (s.control.setInProgress (s.inProgress && !s.commandSuccess)).setInProgress
            s.inProgress = s.control := rfl
        rw [← h, control_setQueryInProgress, hu, ← hp]
        exact hset
  · cases h
    rfl

theorem control_parseLock (h : parseLock env ans node s = some t) : t.control = s.control := by
  unfold parseLock at h
  split at h
  · have hstart : (if isStrictQuery node then (startInternalTransaction env ans node s).1
        else s).control = s.control := by
      split
      · exact control_startInternalTransaction
      · rfl
    simp only at h
    split at h
    · exact (ownCommands_control.insertLock h).trans hstart
    · cases h
      exact hstart
  · cases h
    rfl

/-- Parse sends a new message on behalf of a new context. -/
theorem control_parse {name stmt : String} (hx : s.doingExtendedQueryMessage = true)
    (h : parse env ans name stmt s = some t) :
    ∃ m, NewMessage s.control .P name m ∧
      t.control = (s.control.startQuery stmt (env.statement stmt)).attempt m := by
  unfold parse at h
  cases hps : parseStart env ans name stmt s with
  | mk m u =>
    obtain ⟨hm, hu⟩ := control_parseStart hps
    rw [hps] at h
    simp only at h
    cases hs : parseSync env ans (u.emit (.routed m (u.contexts m.queryContext).whereToSend)) with
    | none => simp [hs] at h
    | some v =>
      simp only [hs] at h
      have he := (control_emit (s := u)
        (.routed m (u.contexts m.queryContext).whereToSend)).trans hu
      have hv := (control_parseSync ((congrArg Control.doingExtendedQueryMessage he).trans hx)
        (congrArg Control.inProgress he) hs).trans he
      cases hl : parseLock env ans (env.statement stmt) v with
      | none => simp [hl] at h
      | some w =>
        simp only [hl, Option.some.injEq] at h
        refine ⟨m, hm, ?_⟩
        rw [← h, control_sendCalls, control_parseLock hl, hv]

theorem control_parseBeforeBindStep (msg : BackendMsg) (i : NodeId) :
    (parseBeforeBindStep env qc msg s i).control = s.control := by
  unfold parseBeforeBindStep
  simp only
  split
  · exact control_poolSendAndWait _ _ _
  · exact control_setMap _

theorem control_parseBeforeBind {m : SentMessage} (h : parseBeforeBind env ans m s = some t) :
    t.control = s.control := by
  have hloop : ∀ (nodes : List NodeId) (u : Session),
      (nodes.foldl (parseBeforeBindStep env m.queryContext m.contents.toParse) u).control =
        u.control := by
    intro nodes
    induction nodes with
    | nil => exact fun _ => rfl
    | cons i rest ih => exact fun u => (ih _).trans (control_parseBeforeBindStep _ _)
  unfold parseBeforeBind at h
  simp only at h
  split at h
  · split at h
    · cases h
      exact (control_setMap _).trans ((control_emit _).trans (hloop _ _))
    · cases h
  · cases h
    exact (control_setMap _).trans (hloop _ _)

theorem getSentMessage_spec {kind : MsgKind} {name : String} {m : SentMessage}
    (h : s.getSentMessage kind name = some m) :
    m ∈ s.messageList ∧ m.kind = kind ∧ m.name = name := by
  have hkey : m.key = (kind, name) := Keyed.lookup_key h
  exact ⟨Keyed.lookup_mem h, congrArg Prod.fst hkey, congrArg Prod.snd hkey⟩

theorem preparedMessage_spec {name : String} {m : SentMessage}
    (h : preparedMessage s name = some m) :
    m ∈ s.messageList ∧ m.kind ≠ .B ∧ m.name = name := by
  unfold preparedMessage at h
  rcases Option.or_eq_some_iff.1 h with h | ⟨-, h⟩
  · obtain ⟨hmem, hkind, hname⟩ := getSentMessage_spec h
    exact ⟨hmem, by simp [hkind], hname⟩
  · obtain ⟨hmem, hkind, hname⟩ := getSentMessage_spec h
    exact ⟨hmem, by simp [hkind], hname⟩

theorem targetMessage_mem {target : Target} {name : String} {m : SentMessage}
    (h : targetMessage target name s = some m) : m ∈ s.messageList := by
  cases target with
  | statement => exact (preparedMessage_spec h).1
  | portal => exact (getSentMessage_spec h).1

theorem control_bindParse {m : SentMessage} (h : bindParse env ans m s = some t) :
    t.control = s.control := by
  unfold bindParse at h
  split at h
  · exact control_parseBeforeBind h
  · cases h
    rfl

theorem bind_cases {portal stmtName : String} {params : List String}
    (h : bind env ans portal stmtName params s = some t) :
    ∃ pm v, preparedMessage s stmtName = some pm ∧
      bindParse env ans pm (bindStart env ans portal stmtName params pm s) = some v ∧
      t = sendCalls env pm.queryContext
        (masterFirst (bindMessage env ans portal stmtName params pm) (v.masterNodeId env)) v := by
  unfold bind at h
  cases hpm : preparedMessage s stmtName with
  | none => simp [hpm] at h
  | some pm =>
    simp only [hpm] at h
    cases hb : bindParse env ans pm (bindStart env ans portal stmtName params pm s) with
    | none => simp [hb] at h
    | some v =>
      simp only [hb, Option.some.injEq] at h
      exact ⟨pm, v, rfl, hb, h.symm⟩

/-- Bind sends a new message on behalf of the context of the statement it names. -/
theorem control_bind {portal stmtName : String} {params : List String}
    (h : bind env ans portal stmtName params s = some t) :
    ∃ pm m, NewBind s.control portal stmtName pm m ∧
      t.control = (s.control.attempt m).setCurrent pm.queryContext := by
  obtain ⟨pm, u, hpm, hb, rfl⟩ := bind_cases h
  obtain ⟨hmem, hkind, hname⟩ := preparedMessage_spec hpm
  refine ⟨pm, ⟨s.nextMessage, .B, .bind portal stmtName params, pm.numTsparams, portal,
    pm.queryContext⟩, ⟨hmem, hkind, hname, rfl, rfl, rfl, rfl⟩, ?_⟩
  rw [control_sendCalls, control_bindParse hb, bindStart, control_emit, control_poolWhereToSend]
  rfl

theorem control_reroute (m : SentMessage) :
    (reroute env ans m s).control = s.control.setCurrent m.queryContext :=
  control_poolWhereToSend _ _

theorem control_describe {target : Target} {name : String}
    (h : describe env ans target name s = some t) :
    ∃ m ∈ s.messageList,
      t.control = s.control.setCurrent m.queryContext := by
  unfold describe at h
  cases hm : targetMessage target name s with
  | none => simp [hm] at h
  | some m =>
    simp only [hm, Option.some.injEq] at h
    exact ⟨m, targetMessage_mem hm, by rw [← h, control_sendCalls, control_reroute]⟩

theorem control_execute {portal : String} (h : execute env ans portal s = some t) :
    ∃ m ∈ s.messageList,
      t.control = s.control.setCurrent m.queryContext := by
  unfold execute at h
  cases hm : s.getSentMessage .B portal with
  | none => simp [hm] at h
  | some m =>
    simp only [hm, Option.some.injEq] at h
    exact ⟨m, (getSentMessage_spec hm).1, by rw [← h, control_sendCalls, control_reroute]⟩

theorem control_close {target : Target} {name : String}
    (h : close env target name s = some t) :
    ∃ m ∈ s.messageList,
      t.control = (s.control.setUncompleted (some m)).setCurrent m.queryContext := by
  unfold close at h
  cases hm : targetMessage target name s with
  | none => simp [hm] at h
  | some m =>
    simp only [hm, Option.some.injEq] at h
    exact ⟨m, targetMessage_mem hm, by rw [← h, control_sendCalls, control_setQueryContext,
      control_setUncompletedMessage]⟩

theorem control_processFunctionCall :
    (processFunctionCall env ans s).control =
      s.control.startQuery "INSERT INTO foo VALUES(1)" functionCallQuery := by
  unfold processFunctionCall
  simp only [show s.initQueryContext.1 = s.nextContext from rfl]
  rw [control_emit, control_poolWhereToSend]
  exact control_startQuery _

theorem control_startMessage (hp : s.inProgress = false) (hi : s.ignoreTillSync = false) :
    s.startMessage.control = s.control.setInProgress true := by
  simp [startMessage, hp, hi]

/-- What `ProcessFrontendResponse` does to the control part. -/
theorem received_processFrontendResponse {msg : FrontendMsg} (hp : s.inProgress = false)
    (h : processFrontendResponse env ans msg s = some t) :
    Received env s.control msg t.control := by
  unfold processFrontendResponse at h
  split at h
  · rename_i hi
    rw [Bool.and_eq_true] at hi
    cases h
    exact .ignored hi.1
  · rename_i hi
    have hopen : ∀ {msg' : FrontendMsg}, msg = msg' → msg'.isSync = false →
        s.ignoreTillSync = false := by
      rintro _ rfl hsync
      simpa [hsync] using hi
    have hext : ∀ b, s.ignoreTillSync = false →
        (s.unsetDoingExtendedQueryMessage.setAllowCloseTransaction b).startExtended.control =
          s.control.startExtended := fun b ho => control_startMessage hp ho
    cases msg with
    | query sql =>
      rcases control_simpleQuery h with ⟨text, node, skip, ht⟩ | ht
      · rw [ht]
        exact .answered text node skip
      · rw [ht]
        exact .query
    | execute portal =>
      have ho := hopen rfl rfl
      obtain ⟨m, hm, ht⟩ := control_execute h
      rw [ht, hext true ho]
      refine .execute (m := m) ?_
      have := congrArg Control.messageList (hext true ho)
      exact this ▸ hm
    | parse name stmt =>
      have ho := hopen rfl rfl
      have hc := hext false ho
      obtain ⟨m, hm, ht⟩ :=
        control_parse (congrArg Control.doingExtendedQueryMessage hc) h
      rw [hc] at hm ht
      rw [ht]
      exact .parse ⟨hm.id, hm.kind, hm.name, hm.queryContext⟩
    | bind portal stmtName params =>
      have hc : s.unsetDoingExtendedQueryMessage.startExtended.control = s.control.startExtended :=
        control_startMessage hp (hopen rfl rfl)
      obtain ⟨pm, m, hm, ht⟩ := control_bind h
      rw [hc] at hm ht
      rw [ht]
      exact .bind ⟨hm.found, hm.statement, hm.stmtName, hm.id, hm.kind, hm.name, hm.queryContext⟩
    | close target name =>
      have hc : s.unsetDoingExtendedQueryMessage.startMessage.control =
          (s.control.setExtended false).setInProgress true :=
        control_startMessage hp (hopen rfl rfl)
      obtain ⟨m, hm, ht⟩ := control_close h
      rw [ht, hc]
      exact .close ((congrArg Control.messageList hc) ▸ hm)
    | describe target name =>
      have hc : s.unsetDoingExtendedQueryMessage.startExtended.control = s.control.startExtended :=
        control_startMessage hp (hopen rfl rfl)
      obtain ⟨m, hm, ht⟩ := control_describe h
      rw [ht, hc]
      exact .describe ((congrArg Control.messageList hc) ▸ hm)
    | sync =>
      cases h
      exact .sync
    | functionCall =>
      cases h
      rw [control_processFunctionCall]
      exact .functionCall
    | forward message =>
      simp only [processMessage] at h
      split at h
      · cases h
      · cases h
        exact .forward

end Session

end PgPool
