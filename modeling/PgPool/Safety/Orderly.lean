import PgPool.Safety.Books

/-!
# Messages from the frontend and the books

A message from the frontend keeps the history in order and the books settled, provided that a Bind,
an Execute or a Describe of a portal is routed to nodes on which its statement or portal has been
attempted.
-/

namespace PgPool

/-- The messages that have been routed have a number below. -/
def Numbered (n : MsgId) (trace : List Action) : Prop := ∀ m i, RoutedTo trace m i → m.id < n

theorem Numbered.silent {n n' : MsgId} {new trace : List Action} (h : Numbered n trace)
    (hnew : ∀ a ∈ new, a.Silent) (hle : n ≤ n') : Numbered n' (new ++ trace) :=
  fun m i hr => Nat.lt_of_lt_of_le (h m i ((routedTo_append hnew).1 hr)) hle

theorem Numbered.completed {n : MsgId} {trace : List Action} (h : Numbered n trace)
    (m : SentMessage) (nodes : List NodeId) : Numbered n (.completed m nodes :: trace) := by
  intro m' i hr
  obtain ⟨a, ha, hm⟩ := hr
  obtain rfl | ha := List.mem_cons.1 ha
  · cases hm
  · exact h m' i ⟨a, ha, hm⟩

theorem Numbered.routed {n n' : MsgId} {trace : List Action} (h : Numbered n trace)
    {m : SentMessage} (map : NodeMap) (hm : m.id < n') (hle : n ≤ n') :
    Numbered n' (.routed m map :: trace) := by
  intro m' i hr
  obtain ⟨a, ha, hrouted⟩ := hr
  obtain rfl | ha := List.mem_cons.1 ha
  · simp only [Action.isRoutedTo, Bool.and_eq_true, beq_iff_eq] at hrouted
    exact hrouted.1 ▸ hm
  · exact Nat.lt_of_lt_of_le (h m' i ⟨a, ha, hrouted⟩) hle

namespace Session

/-- The history is in order, and while a client is served the books are settled. -/
structure Orderly (env : Setup) (serving : Prop) (s : Session) : Prop where
  booked : serving → s.Booked env
  order : InOrder s.conn.trace
  numbered : Numbered s.nextMessage s.conn.trace

variable {env : Setup} {ans : Answers} {s t u v : Session} {m : SentMessage} {qc : QcId}
  {calls : List SendCall} {P : Prop}

/-- A step that does not touch the books and for which everything is there. -/
theorem Orderly.follows (h : s.Orderly env P)
    (hf : Follows (fun a => a.Silent ∧ a.Needs s.conn.trace) s t)
    (hlist : ∀ m ∈ t.messageList, m ∈ s.messageList)
    (hpending : ∀ m, t.uncompletedMessage = some m → m ∈ s.messageList ∨
      s.uncompletedMessage = some m ∧ ∀ i, (s.contexts m.queryContext).whereToSend i = true →
        (t.contexts m.queryContext).whereToSend i = true)
    (hnext : s.nextMessage ≤ t.nextMessage) : t.Orderly env P := by
  obtain ⟨-, -, new, htrace, hnew⟩ := hf
  refine ⟨fun hP => ?_, ?_, ?_⟩
  · unfold Booked
    rw [htrace]
    exact Settled.silent (h.booked hP) (fun a ha => (hnew a ha).1) hlist hpending
  · rw [htrace]
    exact h.order.append (fun a ha => (hnew a ha).1) fun a ha => (hnew a ha).2
  · rw [htrace]
    exact h.numbered.silent (fun a ha => (hnew a ha).1) hnext

theorem Orderly.plain (h : s.Orderly env P) (hf : Follows Action.Plain s t)
    (hlist : ∀ m ∈ t.messageList, m ∈ s.messageList)
    (hpending : ∀ m, t.uncompletedMessage = some m → m ∈ s.messageList ∨
      s.uncompletedMessage = some m ∧ ∀ i, (s.contexts m.queryContext).whereToSend i = true →
        (t.contexts m.queryContext).whereToSend i = true)
    (hnext : s.nextMessage ≤ t.nextMessage) : t.Orderly env P :=
  h.follows (hf.mono fun _ ha => ⟨ha.1, ha.2 _⟩) hlist hpending hnext

/-- A step that changes none of it. -/
theorem Orderly.of_eq (h : s.Orderly env P) (conn : t.conn.trace = s.conn.trace)
    (list : t.messageList = s.messageList)
    (pending : t.uncompletedMessage = s.uncompletedMessage) (contexts : t.contexts = s.contexts)
    (next : t.nextMessage = s.nextMessage) : t.Orderly env P := by
  obtain ⟨hb, ho, hn⟩ := h
  refine ⟨fun hP => ?_, by rwa [conn], by rwa [conn, next]⟩
  unfold Booked
  rw [conn, list, pending, contexts]
  exact hb hP

/-- A new message is routed. -/
theorem Orderly.routes (h : s.Orderly env P) (hk : s.control.WellKeyed)
    (htrace : t.conn.trace =
      .routed m (t.contexts m.queryContext).whereToSend :: s.conn.trace)
    (hlist : t.messageList = s.messageList) (hpending : t.uncompletedMessage = some m)
    (hid : m.id = s.nextMessage) (hnext : t.nextMessage = s.nextMessage + 1) : t.Orderly env P := by
  have hnew : m ∉ s.messageList := by
    intro hm
    have hlt : m.id < s.nextMessage := hk.fresh m hm
    exact Nat.ne_of_lt hlt hid
  have hunrouted : ∀ i, ¬ RoutedTo s.conn.trace m i := by
    intro i hr
    exact Nat.ne_of_lt (h.numbered m i hr) hid
  refine ⟨fun hP => ?_, ?_, ?_⟩
  · unfold Booked
    rw [htrace, hlist, hpending]
    exact Settled.routed (h.booked hP) hnew hunrouted fun _ hi => hi
  · rw [htrace]
    exact ⟨trivial, h.order⟩
  · rw [htrace, hnext]
    exact h.numbered.routed _ (hid ▸ Nat.lt_succ_self _) (Nat.le_succ _)

/-- Messages go to nodes that hold what they need. -/
theorem Orderly.sends (h : v.Orderly env P) (hcurrent : v.queryContext = some qc)
    (hprogress : v.inProgress = true)
    (hmap : ∀ m, v.uncompletedMessage = some m → m ∈ v.messageList ∨
      (sendCalls env qc calls v).contexts m.queryContext = v.contexts m.queryContext)
    (hneeds : ∀ c ∈ calls, ∀ i ∈ v.validNodes env, c.message.Needs v.conn.trace qc i) :
    (sendCalls env qc calls v).Orderly env P := by
  have hcontrol : (sendCalls env qc calls v).control = v.control := control_sendCalls calls
  have hlist : (sendCalls env qc calls v).messageList = v.messageList :=
    congrArg Control.messageList hcontrol
  have hpending : (sendCalls env qc calls v).uncompletedMessage = v.uncompletedMessage :=
    congrArg Control.uncompletedMessage hcontrol
  have hnext : (sendCalls env qc calls v).nextMessage = v.nextMessage :=
    congrArg Control.nextMessage hcontrol
  refine h.follows ((follows_sendCalls hcurrent hprogress).mono fun a ha => ?_)
    (fun m hm => hlist ▸ hm) (fun m hm => ?_) (Nat.le_of_eq hnext.symm)
  · obtain ⟨c, hc, i, hi, rfl⟩ := ha
    exact ⟨trivial, hneeds c hc i hi⟩
  · rw [hpending] at hm
    refine (hmap m hm).imp_right fun hsame => ⟨hm, fun i hi => ?_⟩
    rw [hsame]
    exact hi

/-! ## The extended protocol -/

theorem free_masterFirst {message : BackendMsg} (h : message.Free) (master : NodeId) :
    ∀ c ∈ masterFirst message master, c.message.Free := by
  intro c hc
  simp only [masterFirst, List.mem_cons, List.not_mem_nil, or_false] at hc
  obtain rfl | rfl := hc <;> exact h

theorem message_masterFirst {message : BackendMsg} {master : NodeId} {c : SendCall}
    (hc : c ∈ masterFirst message master) : c.message = message := by
  simp only [masterFirst, List.mem_cons, List.not_mem_nil, or_false] at hc
  obtain rfl | rfl := hc <;> rfl

theorem free_parseCalls (contents : Contents) (master : NodeId) :
    ∀ c ∈ parseCalls env ans contents.toParse master, c.message.Free := by
  intro c hc
  have hquery : (BackendMsg.query poolErrorQuery).Free := fun _ _ _ => trivial
  unfold parseCalls at hc
  split at hc
  · rw [List.mem_singleton.1 hc]
    exact contents.free_toParse
  · split at hc
    · simp only [List.mem_cons, List.not_mem_nil, or_false] at hc
      obtain rfl | rfl := hc
      · exact contents.free_toParse
      · exact hquery
    · exact free_masterFirst contents.free_toParse master c hc

theorem ParseReady.plain (h : ParseReady env s v) : Follows Action.Plain s v := by
  cases h with
  | direct quiet => exact quiet.plain
  | synced quiet =>
    have hsync : Follows Action.Plain s (s.emit (.synced (s.validNodes env))) :=
      follows_plain ⟨trivial, fun _ => trivial⟩
    have hready : Follows Action.Plain (s.emit (.synced (s.validNodes env)))
        ((s.emit (.synced (s.validNodes env))).emit (.ready (s.validNodes env))) :=
      follows_plain ⟨trivial, fun _ => trivial⟩
    exact (hsync.trans hready).trans quiet.plain

theorem orderly_parse {name stmt : String} (h : s.Orderly env P) (hk : s.control.WellKeyed)
    (hx : s.doingExtendedQueryMessage = true) (hreset : s.resetContext = false)
    (hparse : parse env ans name stmt s = some t) : t.Orderly env P := by
  obtain ⟨m, u, v, hsent, rfl⟩ := parse_cases hx hparse
  obtain ⟨hm, hu⟩ := control_parseStart hsent.start
  obtain ⟨hrouted, -⟩ := routed_parseStart hsent.start
  have hmq : m.queryContext = s.nextContext := hm.queryContext
  have hnoted : (u.emit (.routed m (u.contexts m.queryContext).whereToSend)).Orderly env P := by
    refine h.routes hk ?_ (congrArg Control.messageList hu) (congrArg Control.uncompletedMessage hu)
      hm.id (congrArg Control.nextMessage hu)
    change _ :: u.conn.trace = _
    rw [hrouted.conn]
    rfl
  have hvc : v.contexts = u.contexts := hsent.ready.contexts
  have hvu : v.control = u.control := hsent.control
  have hready : v.Orderly env P := by
    refine hnoted.plain hsent.ready.plain (fun m' hm' => ?_) (fun m' hm' => Or.inr ⟨?_, ?_⟩) ?_
    · have hlist : v.messageList = u.messageList := congrArg Control.messageList hvu
      rw [hlist] at hm'
      exact hm'
    · exact (congrArg Control.uncompletedMessage hvu).symm.trans hm'
    · rw [hvc]
      exact fun _ hi => hi
    · exact Nat.le_of_eq (congrArg Control.nextMessage hvu).symm
  have hcurrent : v.queryContext = some m.queryContext := by
    rw [hmq]
    exact congrArg Control.queryContext (hvu.trans hu)
  have hprogress : v.inProgress = true := congrArg Control.inProgress (hvu.trans hu)
  refine hready.sends hcurrent hprogress (fun m' hm' => Or.inr ?_)
    fun c hc i _ => free_parseCalls _ _ c hc _ _ _
  rw [contexts_sendCalls (hsent.ready.reset.trans (hrouted.reset.trans hreset)) ?_ hcurrent hprogress]
  rw [hvc, hmq]
  exact hrouted.commitAlone

/-- The nodes that `pool_where_to_send` picks when the query of a sent message is routed again. -/
def nodesAnew (env : Setup) (lk : Lookups) (s : Session) (m : SentMessage) : NodeMap :=
  nodesToSend env lk (s.setQueryContext m.queryContext) m.queryContext
    (s.contexts m.queryContext).originalQuery (s.contexts m.queryContext).parseTree

/-- Every node that is up and that a Bind is routed to is one that its statement has been routed to, or
one that has not parsed it and on which `parse_before_bind` does so first. -/
def BindCovered (env : Setup) (lk : Lookups) (stmtName : String) (s : Session) : Prop :=
  ∀ pm ∈ preparedMessage s stmtName, ∀ i < env.numBackends, env.isMyUp i = true →
    nodesAnew env lk s pm i = true → RoutedTo s.conn.trace pm i ∨
      (env.loadBalanceMode && s.writingTransaction) = true ∧
        (s.contexts pm.queryContext).queryState i = .unparsed

/-- Every node that is up and that an Execute or a Describe is routed to is one that the Bind of the
portal has been routed to. -/
def PortalCovered (env : Setup) (lk : Lookups) (portal : String) (s : Session) : Prop :=
  ∀ m ∈ s.getSentMessage .B portal, ∀ i < env.numBackends, env.isMyUp i = true →
    nodesAnew env lk s m i = true → RoutedTo s.conn.trace m i

/-- Parsing a statement on further nodes before a Bind. -/
theorem Orderly.parsesBefore {new : List Action} (h : s.Orderly env P)
    (hd : Keyed.Distinct SentMessage.key s.messageList)
    {pm : SentMessage} (hpm : pm ∈ s.messageList)
    (hnew : ∀ a ∈ new, a.Plain ∨ ∃ nodes, a = .completed pm nodes) :
    (s.record new).Orderly env P := by
  induction new with
  | nil => exact h
  | cons a rest ih =>
    have hrest : (s.record rest).Orderly env P := ih fun b hb => hnew b (List.mem_cons_of_mem a hb)
    obtain hplain | ⟨nodes, rfl⟩ := hnew a List.mem_cons_self
    · exact hrest.plain (t := (s.record rest).emit a) (follows_plain hplain) (fun _ hm => hm)
        (fun _ hm => Or.inr ⟨hm, fun _ hi => hi⟩) (Nat.le_refl _)
    · exact ⟨fun hP => Settled.completed (hrest.booked hP) hd hpm nodes, ⟨trivial, hrest.order⟩,
        hrest.numbered.completed pm nodes⟩

theorem routedTo_append {trace : List Action} {pm : SentMessage} {i : NodeId} (h : RoutedTo trace pm i)
    (new : List Action) : RoutedTo (new ++ trace) pm i := by
  obtain ⟨a, ha, hm⟩ := h
  exact ⟨a, List.mem_append_right new ha, hm⟩

/-- Every node that a Bind goes to has completed the statement by then: it has been routed there, or
`parse_before_bind` has parsed it. -/
theorem orderly_bindParse {pm : SentMessage} (hraw : env.rawMode = false) (h : s.Orderly env True)
    (hd : Keyed.Distinct SentMessage.key s.messageList) (hpm : pm ∈ s.messageList)
    (hcurrent : s.queryContext = some pm.queryContext) (hp : s.inProgress = true)
    (hreset : s.resetContext = false) (halone : CommitAlone env (s.contexts pm.queryContext))
    (hfrom : ∀ i ∈ s.validNodes env, RoutedTo s.conn.trace pm i ∨
      (env.loadBalanceMode && s.writingTransaction) = true ∧
        (s.contexts pm.queryContext).queryState i = .unparsed)
    (hparse : bindParse env ans pm s = some t) :
    t.Orderly env True ∧ t.control = s.control ∧ t.contexts = s.contexts ∧ t.resetContext = false ∧
      ∀ i ∈ s.validNodes env, CompletedOn t.conn.trace pm i := by
  have hdone : ∀ {new : List Action} {i : NodeId}, (s.record new).Orderly env True →
      i ∈ s.validNodes env → RoutedTo s.conn.trace pm i →
        CompletedOn (s.record new).conn.trace pm i := by
    intro new i ho hi hr
    obtain ⟨hlt, -, hup⟩ := (validNodes_of_current hraw hcurrent hp).1 hi
    exact (ho.booked trivial).done pm hpm i hlt hup (routedTo_append hr new)
  unfold bindParse at hparse
  split at hparse
  · have hopen : ∀ i ∈ s.validNodes env, s.commitSkips env pm.queryContext i = false :=
      fun i hi => commitSkips_of_serving hreset halone hcurrent hp hi
    obtain ⟨new, rfl, hbefore⟩ := parsedBefore_parseBeforeBind hraw hcurrent hp hopen hparse
    have ho : (s.record new).Orderly env True := by
      refine h.parsesBefore hd hpm fun a ha => ?_
      obtain ⟨i, -, rfl⟩ | ⟨nodes, rfl, -⟩ := hbefore.actions a ha
      · exact Or.inl ⟨trivial, fun trace => pm.contents.free_toParse trace _ _⟩
      · exact Or.inr ⟨nodes, rfl⟩
    refine ⟨ho, rfl, rfl, hreset, fun i hi => ?_⟩
    obtain hr | ⟨-, hunparsed⟩ := hfrom i hi
    · exact hdone ho hi hr
    · obtain ⟨nodes, hcompleted, hin⟩ := hbefore.parsed i hi hunparsed
      exact completedOn_of_mem (List.mem_append_left _ hcompleted) hin
  · rename_i hno
    cases hparse
    refine ⟨h, rfl, rfl, hreset, fun i hi => ?_⟩
    obtain hr | ⟨hwriting, -⟩ := hfrom i hi
    · exact @hdone [] i h hi hr
    · exact absurd hwriting hno

theorem orderly_bind {portal stmtName : String} {params : List String} (hraw : env.rawMode = false)
    (h : s.Orderly env True) (hk : s.control.WellKeyed) (hp : s.inProgress = true)
    (hreset : s.resetContext = false) (hcovered : BindCovered env ans.lookups stmtName s)
    (hbind : bind env ans portal stmtName params s = some t) : t.Orderly env True := by
  obtain ⟨pm, v, hpm, hparse, rfl⟩ := bind_cases hbind
  obtain ⟨hmem, hkind, hname⟩ := preparedMessage_spec hpm
  rw [bindStart_eq] at hparse
  obtain ⟨hrouted, hstate⟩ : Routed env ans.lookups pm.queryContext _ _ s
      (bindRouted env ans portal stmtName params pm s) ∧ _ :=
    routed_bindRouted portal stmtName params pm
  have hcontrol : (bindRouted env ans portal stmtName params pm s).control = _ :=
    control_bindRouted portal stmtName params pm
  have hanew : ((bindRouted env ans portal stmtName params pm s).contexts
      pm.queryContext).whereToSend = nodesAnew env ans.lookups s pm := by
    rw [bindRouted, contexts_poolWhereToSend]
    rfl
  have hwritten : (bindRouted env ans portal stmtName params pm s).writingTransaction =
    s.writingTransaction := rfl
  generalize bindRouted env ans portal stmtName params pm s = r
    at hparse hrouted hstate hcontrol hanew hwritten
  -- the Bind is noted, on a session that has routed it
  generalize hx : r.emit (.routed (boundMessage portal stmtName params pm s)
    (r.contexts pm.queryContext).whereToSend) = x at hparse
  have hxc : x.control = (s.control.attempt (boundMessage portal stmtName params pm s)).setCurrent
      pm.queryContext := hx ▸ (control_emit _).trans hcontrol
  have hxcontexts : x.contexts = r.contexts := hx ▸ rfl
  have hxtrace : x.conn.trace = .routed (boundMessage portal stmtName params pm s)
      (x.contexts pm.queryContext).whereToSend :: s.conn.trace := by
    rw [hxcontexts, ← hx, ← hrouted.conn]
    rfl
  have hxlist : x.messageList = s.messageList := congrArg Control.messageList hxc
  have hxmem : pm ∈ x.messageList := hxlist ▸ hmem
  have hxcurrent : x.queryContext = some pm.queryContext := congrArg Control.queryContext hxc
  have hxprogress : x.inProgress = true := (congrArg Control.inProgress hxc).trans hp
  have hxreset : x.resetContext = false := by
    rw [← hx]
    exact hrouted.reset.trans hreset
  have halone : CommitAlone env (x.contexts pm.queryContext) := by
    rw [hxcontexts]
    exact hrouted.commitAlone
  have hxk : Keyed.Distinct SentMessage.key x.messageList := hxlist ▸ hk.distinct
  have hxo : x.Orderly env True :=
    h.routes (m := boundMessage portal stmtName params pm s) hk hxtrace hxlist
      (congrArg Control.uncompletedMessage hxc) rfl
      (congrArg Control.nextMessage hxc)
  have hxwriting : x.writingTransaction = s.writingTransaction := hx ▸ hwritten
  have hfrom : ∀ i ∈ x.validNodes env, RoutedTo x.conn.trace pm i ∨
      (env.loadBalanceMode && x.writingTransaction) = true ∧
        (x.contexts pm.queryContext).queryState i = .unparsed := by
    intro i hi
    obtain ⟨hlt, hmap, hup⟩ := (validNodes_of_current hraw hxcurrent hxprogress).1 hi
    rw [hxcontexts, hanew] at hmap
    rw [hxcontexts, hstate, hxwriting, hxtrace]
    exact (hcovered pm hpm i hlt hup hmap).imp_left fun hr => routedTo_append hr [_]
  obtain ⟨hvo, hvc, hvcontexts, hvreset, hcompleted⟩ :=
    orderly_bindParse hraw hxo hxk hxmem hxcurrent hxprogress hxreset halone hfrom hparse
  have hvalid : v.validNodes env = x.validNodes env :=
    validNodes_congr (congrArg Control.inProgress hvc) (congrArg Control.queryContext hvc)
      fun _ _ => by rw [hvcontexts]
  have hvmem : pm ∈ v.messageList := by
    have hvlist : v.messageList = x.messageList := congrArg Control.messageList hvc
    exact hvlist ▸ hxmem
  have hvcurrent : v.queryContext = some pm.queryContext :=
    (congrArg Control.queryContext hvc).trans hxcurrent
  have hvprogress : v.inProgress = true := (congrArg Control.inProgress hvc).trans hxprogress
  refine hvo.sends hvcurrent hvprogress (fun m hm => Or.inr ?_) fun c hc i hi => ?_
  · rw [contexts_sendCalls hvreset (hvcontexts ▸ halone) hvcurrent hvprogress]
  · rw [hvalid] at hi
    have hholding := holding_of_last ((hvo.booked trivial).last pm hvmem) (hcompleted i hi)
    rw [message_masterFirst hc]
    cases hkey : pm.kind with
    | B => exact absurd hkey hkind
    | Q =>
      refine Or.inl ?_
      rwa [SentMessage.key, hkey, hname] at hholding
    | P =>
      refine Or.inr ?_
      rwa [SentMessage.key, hkey, hname] at hholding

/-- A message on behalf of a sent message, which is routed again. -/
theorem orderly_rerouted (h : s.Orderly env P) (hp : s.inProgress = true)
    (hanswered : ∀ m' ∈ s.uncompletedMessage, m' ∈ s.messageList)
    (hneeds : ∀ c ∈ calls, ∀ i ∈ (reroute env ans m s).validNodes env,
      c.message.Needs s.conn.trace m.queryContext i) :
    (sendCalls env m.queryContext calls (reroute env ans m s)).Orderly env P := by
  have hcontrol : (reroute env ans m s).control = s.control.setCurrent m.queryContext :=
    control_reroute m
  have hrerouted : (reroute env ans m s).Orderly env P :=
    h.plain (.of_eq rfl rfl rfl) (fun _ hm => hm) (fun m' hm' => Or.inl (hanswered m' hm'))
      (Nat.le_refl _)
  exact hrerouted.sends (congrArg Control.queryContext hcontrol)
    ((congrArg Control.inProgress hcontrol).trans hp) (fun m' hm' => Or.inl (hanswered m' hm')) hneeds

/-- The nodes that a portal is routed to again hold it. -/
theorem holding_rerouted {portal : String} {i : NodeId} (hraw : env.rawMode = false)
    (h : s.Orderly env True) (hp : s.inProgress = true)
    (hcovered : PortalCovered env ans.lookups portal s)
    (hm : s.getSentMessage .B portal = some m)
    (hi : i ∈ (reroute env ans m s).validNodes env) :
    Holding s.conn.trace (.B, portal) m.queryContext i := by
  have hcontrol : (reroute env ans m s).control = s.control.setCurrent m.queryContext :=
    control_reroute m
  obtain ⟨hlt, hmap, hup⟩ := (validNodes_of_current hraw (congrArg Control.queryContext hcontrol)
    ((congrArg Control.inProgress hcontrol).trans hp)).1 hi
  have hanew : ((reroute env ans m s).contexts m.queryContext).whereToSend =
      nodesAnew env ans.lookups s m := by
    rw [reroute, contexts_poolWhereToSend]
    rfl
  rw [hanew] at hmap
  have hmem : m ∈ s.messageList := Keyed.lookup_mem hm
  have hkey : m.key = (.B, portal) := Keyed.lookup_key hm
  rw [← hkey]
  exact holding_of_last ((h.booked trivial).last m hmem)
    ((h.booked trivial).done m hmem i hlt hup (hcovered m hm i hlt hup hmap))

theorem orderly_execute {portal : String} (hraw : env.rawMode = false) (h : s.Orderly env True)
    (hp : s.inProgress = true) (hanswered : ∀ m' ∈ s.uncompletedMessage, m' ∈ s.messageList)
    (hcovered : PortalCovered env ans.lookups portal s)
    (hexecute : execute env ans portal s = some t) : t.Orderly env True := by
  obtain ⟨m, hm, rfl⟩ := execute_cases hexecute
  refine orderly_rerouted h hp hanswered fun c hc i hi => ?_
  have hholding := holding_rerouted hraw h hp hcovered hm hi
  have hmessage : c.message = .execute portal ∨ c.message = .errorPortal := by
    unfold executeCalls at hc
    split at hc
    · split at hc
      · simp only [masterLast, List.mem_cons, List.not_mem_nil, or_false] at hc
        obtain rfl | rfl := hc <;> exact Or.inl rfl
      · split at hc
        · simp only [List.mem_cons, List.not_mem_nil, or_false] at hc
          obtain rfl | rfl := hc
          · exact Or.inl rfl
          · exact Or.inr rfl
        · exact Or.inl (message_masterFirst hc)
    · exact Or.inl (message_masterFirst hc)
  obtain hc' | hc' := hmessage
  · rw [hc']
    exact hholding
  · rw [hc']
    trivial

theorem orderly_describe {target : Target} {name : String} (hraw : env.rawMode = false)
    (h : s.Orderly env True) (hp : s.inProgress = true)
    (hanswered : ∀ m' ∈ s.uncompletedMessage, m' ∈ s.messageList)
    (hcovered : target = .portal → PortalCovered env ans.lookups name s)
    (hdescribe : describe env ans target name s = some t) : t.Orderly env True := by
  obtain ⟨m, hm, rfl⟩ := describe_cases hdescribe
  refine orderly_rerouted h hp hanswered fun c hc i hi => ?_
  rw [message_masterFirst hc]
  cases target with
  | statement => trivial
  | portal => exact holding_rerouted hraw h hp (hcovered rfl) hm hi

theorem orderly_close {target : Target} {name : String} (h : s.Orderly env P)
    (hp : s.inProgress = true) (hclose : close env target name s = some t) : t.Orderly env P := by
  obtain ⟨m, v, hm, rfl, rfl⟩ := close_cases hclose
  have hmem : m ∈ s.messageList := targetMessage_mem hm
  have hstart : ((s.setUncompletedMessage (some m)).setQueryContext m.queryContext).Orderly env P := by
    refine h.plain (.of_eq rfl rfl rfl) (fun _ hm => hm) (fun m' hm' => ?_) (Nat.le_refl _)
    cases hm'
    exact Or.inl hmem
  refine hstart.sends rfl hp (fun m' hm' => ?_) fun c hc i _ => ?_
  · cases hm'
    exact Or.inl hmem
  · rw [message_masterFirst hc]
    trivial

/-! ## Simple queries -/

/-- Steps of pgpool's own. -/
theorem Orderly.quiet (h : s.Orderly env P) (hq : Quiet Action.Internal s t)
    (hc : t.control = s.control) : t.Orderly env P := by
  have hlist : t.messageList = s.messageList := congrArg Control.messageList hc
  have hpending : t.uncompletedMessage = s.uncompletedMessage :=
    congrArg Control.uncompletedMessage hc
  have hnext : t.nextMessage = s.nextMessage := congrArg Control.nextMessage hc
  refine h.plain hq.plain (fun m hm => hlist ▸ hm) (fun m hm => Or.inr ⟨hpending ▸ hm, ?_⟩)
    (Nat.le_of_eq hnext.symm)
  rw [hq.contexts]
  exact fun _ hi => hi

/-- The pending message is not that of a context which has yet to be allocated. -/
theorem pending_ne (hk : s.control.WellKeyed) (hm : s.uncompletedMessage = some m) :
    m.queryContext ≠ s.nextContext := Nat.ne_of_lt (hk.pendingAllocated m hm)

/-- A query is routed that is not the one of the pending message. -/
theorem Orderly.elsewhere (h : s.Orderly env P) (hk : s.control.WellKeyed)
    (conn : t.conn = s.conn) (reset : t.resetContext = s.resetContext)
    (list : t.messageList = s.messageList) (pending : t.uncompletedMessage = s.uncompletedMessage)
    (next : t.nextMessage = s.nextMessage)
    (others : ∀ q, q ≠ s.nextContext → t.contexts q = s.contexts q) : t.Orderly env P := by
  refine h.plain (follows_of_conn conn reset) (fun m hm => list ▸ hm)
    (fun m hm => Or.inr ⟨pending ▸ hm, fun i hi => ?_⟩) (Nat.le_of_eq next.symm)
  rw [others _ (pending_ne hk (pending ▸ hm))]
  exact hi

/-- The calls for a simple query. -/
theorem free_queryCalls {node : Node} {string : String} {master : NodeId} :
    ∀ c ∈ queryCalls env node string master, c.message.Free := by
  intro c hc
  have hmessage : c.message = .query string := by
    unfold queryCalls at hc
    split at hc
    · rw [List.mem_singleton.1 hc]
    · split at hc
      · simp only [masterLast, List.mem_cons, List.not_mem_nil, or_false] at hc
        obtain rfl | rfl := hc <;> rfl
      · split at hc
        · rw [List.mem_singleton.1 hc]
        · exact message_masterFirst hc
  intro trace qc i
  rw [hmessage]
  trivial

/-- A query is rewritten for the time. -/
theorem Orderly.rewritten {node : Node} (h : s.Orderly env P) :
    (rewriteQuery env ans qc node s).Orderly env P := by
  obtain ⟨hconn, hreset⟩ : (rewriteQuery env ans qc node s).conn = s.conn ∧ _ := conn_rewriteQuery
  obtain ⟨query, hself⟩ : ∃ query, (rewriteQuery env ans qc node s).contexts qc =
      { s.contexts qc with rewrittenQuery := query } := contexts_rewriteQuery
  have hcontrol : (rewriteQuery env ans qc node s).control = s.control := control_rewriteQuery
  have hmap : ∀ q, ((rewriteQuery env ans qc node s).contexts q).whereToSend =
      (s.contexts q).whereToSend := by
    intro q
    by_cases hq : q = qc
    · rw [hq, hself]
    · rw [contexts_rewriteQuery_ne hq]
  have hlist : (rewriteQuery env ans qc node s).messageList = s.messageList :=
    congrArg Control.messageList hcontrol
  have hpending : (rewriteQuery env ans qc node s).uncompletedMessage = s.uncompletedMessage :=
    congrArg Control.uncompletedMessage hcontrol
  refine h.plain (follows_of_conn hconn hreset) (fun m hm => ?_)
    (fun m hm => Or.inr ⟨?_, fun i hi => ?_⟩)
    (Nat.le_of_eq (congrArg Control.nextMessage hcontrol).symm)
  · exact hlist ▸ hm
  · exact hpending ▸ hm
  · rw [hmap]
    exact hi

theorem orderly_routeQuery {sql : String} {node : Node} (h : s.Orderly env P)
    (hk : s.control.WellKeyed)
    (hroute : routeQuery env ans s.nextContext sql node
      (s.initQueryContext.2.startQuery env s.nextContext sql node) = some t) : t.Orderly env P := by
  have hrouted : Routed env ans.lookups s.nextContext sql node s
      (queryRouted env ans.lookups sql node s) := routed_queryRouted
  have hcontrol : (queryRouted env ans.lookups sql node s).control = s.control.startQuery sql node :=
    control_queryRouted
  have hr : (queryRouted env ans.lookups sql node s).Orderly env P :=
    h.elsewhere hk hrouted.conn hrouted.reset (congrArg Control.messageList hcontrol)
      (congrArg Control.uncompletedMessage hcontrol) (congrArg Control.nextMessage hcontrol)
      hrouted.others
  have hfirst : ∀ m, (queryRouted env ans.lookups sql node s).uncompletedMessage = some m →
      m.queryContext ≠ s.nextContext := fun m hm =>
    pending_ne hk ((congrArg Control.uncompletedMessage hcontrol).symm.trans hm)
  have htree : ((queryRouted env ans.lookups sql node s).contexts s.nextContext).parseTree = node :=
    hrouted.tree
  unfold routeQuery at hroute
  have hstart : poolWhereToSend env ans.lookups s.nextContext sql node
      (s.initQueryContext.2.startQuery env s.nextContext sql node) =
        queryRouted env ans.lookups sql node s := rfl
  rw [hstart] at hroute
  generalize queryRouted env ans.lookups sql node s = r at hcontrol hr hfirst htree hroute
  cases hw : startMultiNode env ans s.nextContext node r with
  | none =>
    rw [hw] at hroute
    cases hroute
  | some w =>
    rw [hw] at hroute
    cases hroute
    have hquiet : Quiet Action.Internal r (w.beginV2 env node) :=
      (quiet_startMultiNode hw).trans quiet_beginV2
    have hsame : (w.beginV2 env node).control = r.control := by
      rw [control_beginV2, control_startMultiNode hw]
    have hx : (w.beginV2 env node).Orderly env P := hr.quiet hquiet hsame
    generalize w.beginV2 env node = x at hquiet hsame hx
    have hxpending : x.uncompletedMessage = r.uncompletedMessage :=
      congrArg Control.uncompletedMessage hsame
    have hxk : x.control.WellKeyed := by
      rw [hsame, hcontrol]
      exact hk.startQuery sql node
    -- a PREPARE is pending now, and no other query leaves its own context pending
    have hy : (x.notePrepare s.nextContext sql node).Orderly env P ∧
        ∀ m, (x.notePrepare s.nextContext sql node).uncompletedMessage = some m →
          m.queryContext ≠ s.nextContext ∨ isCommitQuery node = false := by
      cases node with
      | prepareStmt name query =>
        refine ⟨hx.routes (m := ⟨x.nextMessage, .Q, .query sql, 0, name, s.nextContext⟩) hxk rfl rfl
          rfl rfl rfl, fun m _ => Or.inr rfl⟩
      | _ => exact ⟨hx, fun m hm => Or.inl (hfirst m (hxpending.symm.trans hm))⟩
    obtain ⟨hyo, hypending⟩ := hy
    have hyc : (x.notePrepare s.nextContext sql node).contexts = x.contexts := by
      cases node <;> rfl
    have hycurrent : (x.notePrepare s.nextContext sql node).queryContext = some s.nextContext := by
      rw [current_notePrepare]
      exact congrArg Control.queryContext (hsame.trans hcontrol)
    have hyprogress : (x.notePrepare s.nextContext sql node).inProgress = true := by
      rw [inProgress_notePrepare]
      exact congrArg Control.inProgress (hsame.trans hcontrol)
    generalize x.notePrepare s.nextContext sql node = y at hyo hypending hyc hycurrent hyprogress
    obtain ⟨rewritten, hself⟩ : ∃ query,
        (rewriteQuery env ans s.nextContext node y).contexts s.nextContext =
          { y.contexts s.nextContext with rewrittenQuery := query } := contexts_rewriteQuery
    have hzc : (rewriteQuery env ans s.nextContext node y).control = y.control :=
      control_rewriteQuery
    have hz : (rewriteQuery env ans s.nextContext node y).Orderly env P := hyo.rewritten
    unfold sendQuery
    simp only
    generalize rewriteQuery env ans s.nextContext node y = z at hself hzc hz
    have hztree : (z.contexts s.nextContext).parseTree = node := by
      rw [hself]
      change (y.contexts s.nextContext).parseTree = node
      rw [hyc, hquiet.contexts]
      exact htree
    refine hz.sends ((congrArg Control.queryContext hzc).trans hycurrent)
      ((congrArg Control.inProgress hzc).trans hyprogress) (fun m hm => Or.inr ?_)
      fun c hc i _ => free_queryCalls c hc _ _ _
    obtain hne | hno := hypending m ((congrArg Control.uncompletedMessage hzc).symm.trans hm)
    · exact contexts_sendCalls_ne hne
    · rw [contexts_sendCalls_of_not_commit (hztree ▸ hno)]

theorem orderly_simpleQuery {sql : String} (h : s.Orderly env P) (hk : s.control.WellKeyed)
    (hquery : simpleQuery env ans sql s = some t) : t.Orderly env P := by
  have hstart : ∀ q, q ≠ s.nextContext → (s.initQueryContext.2.startQuery env s.nextContext sql
      (env.statement sql)).contexts q = s.contexts q := (asIn_startQuery _).others
  unfold simpleQuery at hquery
  simp only [show s.initQueryContext.1 = s.nextContext from rfl] at hquery
  split at hquery
  · cases hquery
    refine h.elsewhere hk rfl rfl rfl rfl rfl fun q hq => ?_
    change (if q = s.nextContext then QueryContext.zeroed else s.contexts q) = _
    rw [if_neg hq]
  · split at hquery
    · cases hquery
      exact h.elsewhere hk rfl rfl rfl rfl rfl hstart
    · split at hquery
      · cases hquery
        exact h.elsewhere hk rfl rfl rfl rfl rfl hstart
      · exact orderly_routeQuery h hk hquery

/-! ## `ProcessFrontendResponse` -/

/-- No Parse, Bind or PREPARE waits for its completion. -/
def AllAnswered (s : Session) : Prop := ∀ m ∈ s.uncompletedMessage, m ∈ s.messageList

/-- The statement or portal that a message names is where the message is routed to, and nothing else is
pending on a query that is routed again. -/
def CarefulMessage (env : Setup) (lk : Lookups) (s : Session) : FrontendMsg → Prop
  | .bind _ stmtName _ => BindCovered env lk stmtName s
  | .execute portal | .describe .portal portal => AllAnswered s ∧ PortalCovered env lk portal s
  | .describe .statement _ => AllAnswered s
  | _ => True

/-- The session that a message of the extended protocol is handed to. -/
theorem startMessage_eq (hp : s.inProgress = false) (hi : s.ignoreTillSync = false) :
    s.startMessage = s.setQueryInProgress := by
  simp [startMessage, hp, hi]

theorem startExtended_eq (hp : s.inProgress = false) (hi : s.ignoreTillSync = false) :
    s.startExtended = s.setDoingExtendedQueryMessage.setQueryInProgress :=
  startMessage_eq (s := s.setDoingExtendedQueryMessage) hp hi

/-- **Messages from the frontend** keep the history in order and the books settled. -/
theorem orderly_frontend {msg : FrontendMsg} (hraw : env.rawMode = false) (h : s.Orderly env True)
    (hk : s.control.WellKeyed) (hp : s.inProgress = false) (hreset : s.resetContext = false)
    (hcareful : s.ignoreTillSync = false → CarefulMessage env ans.lookups s msg)
    (hnext : processFrontendResponse env ans msg s = some t) : t.Orderly env True := by
  unfold processFrontendResponse at hnext
  split at hnext
  · cases hnext
    exact h
  · rename_i hi
    have hopen : ∀ {msg' : FrontendMsg}, msg = msg' → msg'.isSync = false →
        s.ignoreTillSync = false := by
      intro msg' hmsg hsync
      subst hmsg
      simpa [hsync] using hi
    -- the session once the message has been started
    have hstarted : ∀ {u : Session}, u.conn.trace = s.conn.trace → u.messageList = s.messageList →
        u.uncompletedMessage = s.uncompletedMessage → u.contexts = s.contexts →
          u.nextMessage = s.nextMessage → u.Orderly env True :=
      fun conn list pending contexts next => h.of_eq conn list pending contexts next
    have hkeyed : ∀ {u : Session}, u.control.messageList = s.control.messageList →
        u.control.uncompletedMessage = s.control.uncompletedMessage →
          u.control.nextMessage = s.control.nextMessage →
            u.control.nextContext = s.control.nextContext → u.control.WellKeyed :=
      fun list pending messages contexts =>
        hk.of_eq list pending messages (Nat.le_of_eq contexts.symm)
    cases msg with
    | query sql =>
      exact orderly_simpleQuery (s := s.unsetDoingExtendedQueryMessage.setAllowCloseTransaction true)
        (hstarted rfl rfl rfl rfl rfl) (hkeyed rfl rfl rfl rfl) hnext
    | execute portal =>
      have ho := hopen rfl rfl
      obtain ⟨hanswered, hcovered⟩ := hcareful ho
      have hexecute : execute env ans portal
          (s.unsetDoingExtendedQueryMessage.setAllowCloseTransaction true).startExtended = some t :=
        hnext
      rw [startExtended_eq (s := s.unsetDoingExtendedQueryMessage.setAllowCloseTransaction true) hp ho]
        at hexecute
      refine orderly_execute hraw ?_ ?_ ?_ ?_ hexecute
      · exact hstarted rfl rfl rfl rfl rfl
      · rfl
      · exact hanswered
      · exact hcovered
    | parse name stmt =>
      have ho := hopen rfl rfl
      have hparse : parse env ans name stmt
          (s.unsetDoingExtendedQueryMessage.setAllowCloseTransaction false).startExtended = some t :=
        hnext
      rw [startExtended_eq (s := s.unsetDoingExtendedQueryMessage.setAllowCloseTransaction false) hp ho]
        at hparse
      refine orderly_parse ?_ ?_ ?_ ?_ hparse
      · exact hstarted rfl rfl rfl rfl rfl
      · exact hkeyed rfl rfl rfl rfl
      · rfl
      · exact hreset
    | bind portal stmtName params =>
      have ho := hopen rfl rfl
      have hbind : bind env ans portal stmtName params
          s.unsetDoingExtendedQueryMessage.startExtended = some t := hnext
      rw [startExtended_eq (s := s.unsetDoingExtendedQueryMessage) hp ho] at hbind
      refine orderly_bind hraw ?_ ?_ ?_ ?_ ?_ hbind
      · exact hstarted rfl rfl rfl rfl rfl
      · exact hkeyed rfl rfl rfl rfl
      · rfl
      · exact hreset
      · exact hcareful ho
    | close target name =>
      have ho := hopen rfl rfl
      have hclose : close env target name s.unsetDoingExtendedQueryMessage.startMessage = some t :=
        hnext
      rw [startMessage_eq (s := s.unsetDoingExtendedQueryMessage) hp ho] at hclose
      refine orderly_close ?_ ?_ hclose
      · exact hstarted rfl rfl rfl rfl rfl
      · rfl
    | describe target name =>
      have ho := hopen rfl rfl
      have hdescribe : describe env ans target name
          s.unsetDoingExtendedQueryMessage.startExtended = some t := hnext
      rw [startExtended_eq (s := s.unsetDoingExtendedQueryMessage) hp ho] at hdescribe
      cases target with
      | statement =>
        refine orderly_describe hraw ?_ ?_ ?_ (fun h => by cases h) hdescribe
        · exact hstarted rfl rfl rfl rfl rfl
        · rfl
        · exact hcareful ho
      | portal =>
        obtain ⟨hanswered, hcovered⟩ := hcareful ho
        refine orderly_describe hraw ?_ ?_ ?_ (fun _ => ?_) hdescribe
        · exact hstarted rfl rfl rfl rfl rfl
        · rfl
        · exact hanswered
        · exact hcovered
    | sync =>
      cases hnext
      exact Orderly.plain h (t := processSync env s.unsetDoingExtendedQueryMessage)
        ⟨rfl, rfl, [_], rfl, by
          intro a ha
          rw [List.mem_singleton.1 ha]
          exact ⟨trivial, fun _ => trivial⟩⟩
        (fun _ hm => hm) (fun _ hm => Or.inr ⟨hm, fun _ hi => hi⟩) (Nat.le_refl _)
    | functionCall =>
      cases hnext
      have hrouted : Routed env ans.lookups s.unsetDoingExtendedQueryMessage.nextContext
          "INSERT INTO foo VALUES(1)" functionCallQuery s.unsetDoingExtendedQueryMessage
          (queryRouted env ans.lookups "INSERT INTO foo VALUES(1)" functionCallQuery
            s.unsetDoingExtendedQueryMessage) := routed_queryRouted
      have hstart : s.unsetDoingExtendedQueryMessage.Orderly env True := hstarted rfl rfl rfl rfl rfl
      have hquery : (queryRouted env ans.lookups "INSERT INTO foo VALUES(1)" functionCallQuery
          s.unsetDoingExtendedQueryMessage).Orderly env True :=
        hstart.elsewhere (hkeyed rfl rfl rfl rfl) hrouted.conn hrouted.reset rfl rfl rfl
          hrouted.others
      exact hquery.plain (follows_plain ⟨trivial, fun _ => trivial⟩) (fun _ hm => hm)
        (fun _ hm => Or.inr ⟨hm, fun _ hi => hi⟩) (Nat.le_refl _)
    | forward message =>
      simp only [processMessage] at hnext
      split at hnext
      · cases hnext
      · cases hnext
        have hstart : s.unsetDoingExtendedQueryMessage.Orderly env True := hstarted rfl rfl rfl rfl rfl
        exact hstart.plain (follows_plain ⟨trivial, fun _ => trivial⟩) (fun _ hm => hm)
          (fun _ hm => Or.inr ⟨hm, fun _ hi => hi⟩) (Nat.le_refl _)

end Session

end PgPool
