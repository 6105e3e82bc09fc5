import PgPool.Control.WellKeyed
import PgPool.Traffic.Frontend

/-!
# The node maps of the sent messages

What one step does to the map of a query context that a sent message refers to: replies at most add
nodes to it, and a message from the frontend routes at most one such context anew.
-/

namespace PgPool

namespace Control

/-- A sent message refers to the context: an entry of the list, or the uncompleted one. -/
def Held (c : Control) (qc : QcId) : Prop :=
  (∃ m ∈ c.messageList, m.queryContext = qc) ∨
    ∃ m, c.uncompletedMessage = some m ∧ m.queryContext = qc

variable {c d : Control} {m : SentMessage} {qc : QcId}

theorem WellKeyed.held_lt (h : WellKeyed c) (hq : Held c qc) : qc < c.nextContext := by
  rcases hq with ⟨m, hm, rfl⟩ | ⟨m, hm, rfl⟩
  · exact h.allocated m hm
  · exact h.pendingAllocated m hm

/-- A state with no other entries and no other pending message. -/
theorem Held.of_subset (h : Held d qc) (list : ∀ m ∈ d.messageList, Held c m.queryContext)
    (pending : ∀ m, d.uncompletedMessage = some m → Held c m.queryContext) : Held c qc := by
  rcases h with ⟨m, hm, rfl⟩ | ⟨m, hm, rfl⟩
  · exact list m hm
  · exact pending m hm

theorem Held.of_mem (h : m ∈ c.messageList) : Held c m.queryContext := Or.inl ⟨m, h, rfl⟩

theorem Held.of_pending (h : c.uncompletedMessage = some m) : Held c m.queryContext :=
  Or.inr ⟨m, h, rfl⟩

theorem Held.of_sublist (h : Held d qc) (list : ∀ m ∈ d.messageList, m ∈ c.messageList)
    (pending : ∀ m, d.uncompletedMessage = some m → c.uncompletedMessage = some m) : Held c qc :=
  h.of_subset (fun m hm => .of_mem (list m hm)) fun m hm => .of_pending (pending m hm)

theorem held_removeMessage {kind : MsgKind} {name : String}
    (h : Held (c.removeMessage kind name) qc) : Held c qc := by
  refine h.of_sublist (fun m hm => ?_) fun m hm => ?_
  · rw [messageList_removeMessage] at hm
    exact Keyed.mem_of_mem_remove hm
  · rwa [uncompletedMessage_removeMessage] at hm

theorem held_removals (hr : Removals c d) (h : Held d qc) : Held c qc := by
  induction hr with
  | refl => exact h
  | remove kind name _ ih => exact ih (held_removeMessage h)

theorem held_addMessage (hm : c.uncompletedMessage = some m) (h : Held (c.addMessage m) qc) :
    Held c qc := by
  refine h.of_subset (fun m' hm' => ?_) fun m' hm' => ?_
  · rw [messageList_addMessage] at hm'
    split at hm'
    · exact .of_mem hm'
    · rcases List.mem_append.1 hm' with hm' | hm'
      · exact .of_mem (Keyed.mem_of_mem_remove hm')
      · rw [List.mem_singleton.1 hm']
        exact .of_pending hm
  · rw [uncompletedMessage_addMessage] at hm'
    exact .of_pending hm'

/-- Without its uncompleted message a state holds no more. -/
theorem held_forget (h : Held (c.setUncompleted none) qc) : Held c qc := by
  refine h.of_sublist (fun _ hm => hm) fun m hm => ?_
  cases hm

theorem held_complete (h : Held c.complete qc) : Held c qc := by
  unfold complete at h
  cases hm : c.uncompletedMessage with
  | none =>
    rw [hm] at h
    exact h
  | some m =>
    rw [hm] at h
    exact held_addMessage hm (held_forget h)

theorem held_dropUncompleted (h : Held c.dropUncompleted qc) : Held c qc := by
  unfold dropUncompleted at h
  cases hm : c.uncompletedMessage with
  | none =>
    rw [hm] at h
    exact h
  | some m =>
    rw [hm] at h
    exact held_addMessage hm (held_removeMessage (held_forget h))

theorem held_endExtended (h : Held c.endExtended qc) : Held c qc := by
  unfold endExtended at h
  split at h <;> exact h

theorem held_endError (h : Held c.endError qc) : Held c qc := by
  unfold endError at h
  split at h <;> exact h

theorem held_readyForQuery (h : Held c.readyForQuery qc) : Held c qc := by
  unfold readyForQuery at h
  split at h
  · exact h
  · split at h
    · exact h
    · split at h <;> exact h

/-- A reply makes no message refer to another context. -/
theorem held_replied {reply : Reply} (hr : Replied c reply d) (h : Held d qc) : Held c qc := by
  cases hr with
  | ready => exact held_readyForQuery h
  | parseComplete => exact held_complete h
  | bindComplete => exact held_complete h
  | closeComplete => exact held_removeMessage (held_forget h)
  | error => exact held_dropUncompleted (held_endError h)
  | command completed =>
    have hd := held_endExtended h
    cases completed with
    | prepare => exact held_complete hd
    | other tag removals => exact held_removals removals hd
  | ends => exact held_endExtended h
  | _ => exact h

end Control

open Control

namespace Session

/-- A context that has at most gained nodes, and is no COMMIT if it has. -/
structure Widened (env : Setup) (c c' : QueryContext) : Prop where
  query : c'.originalQuery = c.originalQuery
  tree : c'.parseTree = c.parseTree
  map : ∀ i, c.whereToSend i = true → c'.whereToSend i = true
  alone : CommitAlone env c → CommitAlone env c'

theorem Widened.refl (env : Setup) (c : QueryContext) : Widened env c c :=
  ⟨rfl, rfl, fun _ h => h, fun h => h⟩

theorem Widened.trans {env : Setup} {c c' c'' : QueryContext} (h : Widened env c c')
    (h' : Widened env c' c'') : Widened env c c'' :=
  ⟨h'.query.trans h.query, h'.tree.trans h.tree, fun i hi => h'.map i (h.map i hi),
    fun ha => h'.alone (h.alone ha)⟩

/-- All contexts have at most gained nodes. -/
structure Widens (env : Setup) (s t : Session) : Prop where
  reset : t.resetContext = s.resetContext
  contexts : ∀ q, Widened env (s.contexts q) (t.contexts q)

variable {env : Setup} {ans : Answers} {s t u v : Session} {qc q : QcId} {P : Action → Prop}

theorem Widens.refl (env : Setup) (s : Session) : Widens env s s := ⟨rfl, fun _ => .refl env _⟩

theorem Widens.trans (h : Widens env s t) (h' : Widens env t u) : Widens env s u :=
  ⟨h'.reset.trans h.reset, fun q => (h.contexts q).trans (h'.contexts q)⟩

theorem Widens.of_eq (reset : t.resetContext = s.resetContext) (h : t.contexts = s.contexts) :
    Widens env s t := by
  refine ⟨reset, fun q => ?_⟩
  rw [h]
  exact .refl env _

theorem Quiet.widens (h : Quiet P s t) : Widens env s t := .of_eq h.reset h.contexts

theorem widens_setContext {c : QueryContext} (h : Widened env (s.contexts qc) c) :
    Widens env s (s.setContext qc c) := by
  refine ⟨rfl, fun q => ?_⟩
  by_cases hq : q = qc
  · subst hq
    rw [contexts_setContext_self]
    exact h
  · rw [contexts_setContext_ne s c hq]
    exact .refl env _

/-! ## Replies -/

theorem widens_setQueryState (state : QueryState) : Widens env s (setQueryState env qc state s) :=
  widens_setContext ⟨rfl, rfl, fun _ h => h, fun h => h⟩

theorem widens_completeMessage (state : QueryState) : Widens env s (s.completeMessage env state) := by
  unfold completeMessage
  split
  · exact .refl env s
  · rename_i m _
    have hadd : Quiet (fun _ => True) (s.emit (.completed m (s.validNodes env)))
        ((s.emit (.completed m (s.validNodes env))).addSentMessage m) := quiet_addSentMessage m
    have hemit : Widens env s (s.emit (.completed m (s.validNodes env))) := .of_eq rfl rfl
    exact ((hemit.trans hadd.widens).trans (widens_setQueryState state)).trans (.of_eq rfl rfl)

theorem widens_completePrepare : Widens env s (s.completePrepare env) := by
  unfold completePrepare
  split
  · exact .refl env s
  · rename_i m _
    have hadd : Quiet (fun _ => True) (s.emit (.completed m (s.validNodes env)))
        ((s.emit (.completed m (s.validNodes env))).addSentMessage m) := quiet_addSentMessage m
    have hemit : Widens env s (s.emit (.completed m (s.validNodes env))) := .of_eq rfl rfl
    exact (hemit.trans hadd.widens).trans (.of_eq rfl rfl)

theorem widens_removeSentMessage (kind : MsgKind) (name : String) :
    Widens env s (s.removeSentMessage kind name).1 :=
  (quiet_removeSentMessage (P := fun _ => True) kind name).widens

theorem widens_removeSentMessages (kind : MsgKind) : Widens env s (s.removeSentMessages kind) :=
  (quiet_removeSentMessages (P := fun _ => True) kind).widens

theorem widens_clearSentMessageList : Widens env s s.clearSentMessageList :=
  (quiet_clearSentMessageList (P := fun _ => True)).widens

theorem widens_completeStatement (node : Node) : Widens env s (completeStatement env node s) := by
  unfold completeStatement
  split
  · exact widens_completePrepare
  · rename_i name
    cases name with
    | none => exact (widens_removeSentMessages .Q).trans (widens_removeSentMessages .P)
    | some name => exact (widens_removeSentMessage .Q name).trans (widens_removeSentMessage .P name)
  · rename_i target
    cases target with
    | plans => exact (widens_removeSentMessages .Q).trans (widens_removeSentMessages .P)
    | all => exact widens_clearSentMessageList
    | temp => exact .refl env s
  · split
    · exact .of_eq rfl rfl
    · exact .refl env s

theorem widens_commandComplete (effect : TxnEffect) (mismatch : Bool) :
    Widens env s (s.commandComplete env effect mismatch) := by
  have hemit : Widens env s (s.emit (.tagged (s.validNodes env) effect)) := .of_eq rfl rfl
  have hlast : ∀ (u : Session) (b : Bool), Widens env u (u.setMismatchNtuples b) :=
    fun _ _ => .of_eq rfl rfl
  unfold commandComplete
  simp only
  split
  · exact hemit.trans (hlast _ _)
  · exact (hemit.trans (widens_completeStatement _)).trans (hlast _ _)

/-- A statement that may be load balanced is no COMMIT. -/
theorem isCommitQuery_of_selectContext (h : selectContext env s = some qc) :
    isCommitQuery (s.contexts qc).parseTree = false := by
  unfold selectContext at h
  split at h
  · cases h
  · simp only at h
    split at h
    · rename_i hsel
      cases h
      rcases isSelectQuery_cases hsel with ⟨_, hn, -⟩ | ⟨_, _, hn⟩ | ⟨_, _, _, hn, -⟩ <;> rw [hn] <;> rfl
    · cases h

/-- The map of a SELECT grows. -/
theorem widens_setMap (h : selectContext env s = some qc) {map : NodeMap}
    (hmap : ∀ i, (s.contexts qc).whereToSend i = true → map i = true) :
    Widens env s (s.setMap qc map) := by
  refine widens_setContext ⟨rfl, rfl, hmap, ?_⟩
  intro _ _ hc
  have hno := isCommitQuery_of_selectContext h
  change isCommitQuery (s.contexts qc).parseTree = true at hc
  rw [hno] at hc
  cases hc

theorem widens_raiseIntentionalErrorIfNeed : Widens env s (s.raiseIntentionalErrorIfNeed env) := by
  have hprimary : Widens env s (s.raiseOnPrimary env) := by
    unfold raiseOnPrimary
    split
    · exact .refl env s
    · rename_i hsel
      split
      · refine (widens_setMap hsel fun i hi => ?_).trans (.of_eq rfl rfl)
        unfold NodeMap.set
        split
        · exact hi
        · simp [hi]
      · exact .refl env s
  have hreplicas : ∀ u : Session, Widens env u (u.raiseOnReplicas env) := by
    intro u
    unfold raiseOnReplicas
    split
    · exact .refl env u
    · rename_i hsel
      split
      · refine (widens_setMap hsel fun i hi => ?_).trans
          (quiet_foldl_emit (P := fun _ => True) _ _ fun _ _ => trivial).widens
        exact NodeMap.setall_of_mem hi
      · exact .refl env u
  exact hprimary.trans (hreplicas _)

theorem widens_dropUncompleted : Widens env s s.dropUncompleted := by
  unfold dropUncompleted
  split
  · exact .refl env s
  · rename_i m _
    have hadd : Widens env s (s.addSentMessage m) :=
      (quiet_addSentMessage (P := fun _ => True) m).widens
    exact (hadd.trans (widens_removeSentMessage _ _)).trans (.of_eq rfl rfl)

theorem widens_noteFailure : Widens env s (noteFailure env s) := by
  unfold noteFailure
  split
  · exact .of_eq rfl rfl
  · exact .refl env s

theorem widens_endExtended : Widens env s s.endExtended := by
  unfold endExtended
  split
  · exact .of_eq rfl rfl
  · exact .refl env s

theorem widens_endError : Widens env s (endError env s) := by
  have hsuccess : Widens env s s.setCommandSuccess := .of_eq rfl rfl
  have hnote : Widens env s (noteFailure env s.setCommandSuccess) :=
    hsuccess.trans widens_noteFailure
  unfold endError
  simp only
  split
  · exact hnote.trans (.of_eq rfl rfl)
  · exact hnote

theorem widens_processReplyV3 {reply : Reply} (h : processReplyV3 env ans reply s = some t) :
    Widens env s t := by
  unfold processReplyV3 at h
  cases reply with
  | readyForQuery =>
    have hread : Widens env s (s.emit (.ready (s.validNodes env))) := .of_eq rfl rfl
    exact hread.trans (quiet_readyForQuery h).widens
  | parseComplete =>
    cases h
    exact (widens_completeMessage _).trans (.of_eq rfl rfl)
  | bindComplete =>
    cases h
    exact (widens_completeMessage _).trans (.of_eq rfl rfl)
  | closeComplete =>
    obtain ⟨u, hu, rfl⟩ := Option.map_eq_some_iff.1 h
    unfold closeComplete at hu
    split at hu
    · cases hu
    · cases hu
      exact (widens_removeSentMessage _ _).trans (.of_eq rfl rfl)
  | errorResponse fatal =>
    obtain ⟨u, hu, rfl⟩ := Option.map_eq_some_iff.1 h
    unfold errorResponse3 at hu
    split at hu
    · cases hu
    · cases hu
      exact (widens_raiseIntentionalErrorIfNeed.trans widens_dropUncompleted).trans
        widens_endError
  | commandComplete tag effect mismatch =>
    cases h
    have hsuccess : Widens env (s.commandComplete env effect mismatch)
        (s.commandComplete env effect mismatch).setCommandSuccess := .of_eq rfl rfl
    exact ((widens_commandComplete effect mismatch).trans hsuccess).trans widens_endExtended
  | copyIn messages =>
    cases h
    exact (quiet_foldl_emit (P := fun _ => True) _ messages fun _ _ => trivial).widens
  | other =>
    cases h
    exact .refl env s
  | _ =>
    cases h
    exact widens_endExtended

theorem widens_processReplyV2 {reply : Reply} (h : processReplyV2 env ans reply s = some t) :
    Widens env s t := by
  unfold processReplyV2 at h
  cases reply with
  | readyForQuery =>
    have hread : Widens env s (s.emit (.ready (s.validNodes env))) := .of_eq rfl rfl
    exact hread.trans (quiet_readyForQuery h).widens
  | commandComplete tag effect mismatch =>
    cases h
    unfold completedResponse
    simp only
    split <;> exact .of_eq rfl rfl
  | errorResponse fatal =>
    cases h
    have hraise : Widens env s (s.raiseIntentionalErrorIfNeed env) :=
      widens_raiseIntentionalErrorIfNeed
    have hstate : Widens env (s.raiseIntentionalErrorIfNeed env) (s.errorResponse env) :=
      .of_eq rfl rfl
    exact (hraise.trans hstate).trans widens_noteFailure
  | copyIn messages =>
    cases h
    exact (quiet_foldl_emit (P := fun _ => True) _ messages fun _ _ => trivial).widens
  | emptyQuery | rowDescription | other =>
    cases h
    exact .refl env s
  | _ => cases h

/-- **Replies** only add nodes to the maps. -/
theorem widens_processBackendResponse {reply : Reply}
    (h : processBackendResponse env ans reply s = some t) : Widens env s t := by
  unfold processBackendResponse at h
  split at h
  · cases h
    exact .refl env s
  · split at h
    · cases h
      exact .of_eq rfl rfl
    · split at h
      · exact widens_processReplyV3 h
      · exact widens_processReplyV2 h

/-! ## Messages from the frontend -/

/-- How the context of a sent message has come about in a step from `s`: it was the context of one
before, or it has been routed in this step. -/
inductive Placed (env : Setup) (s : Session) (q : QcId) (c : QueryContext) : Prop
  | kept (held : s.control.Held q) (widened : Widened env (s.contexts q) c)
  | routed (lk : Lookups) (s₀ : Session) (asIn : AsIn q s s₀)
      (map : c.whereToSend = nodesToSend env lk s₀ q c.originalQuery c.parseTree)
      (alone : CommitAlone env c)

/-- The flags that change before a message is processed do not matter. -/
theorem Placed.of_eq {c : QueryContext} (h : Placed env u q c) (conn : u.conn = s.conn)
    (control : u.messageList = s.messageList ∧ u.uncompletedMessage = s.uncompletedMessage)
    (contexts : u.contexts = s.contexts) (writing : u.writingTransaction = s.writingTransaction)
    (failed : u.failedTransaction = s.failedTransaction)
    (isolation : u.transactionIsolation = s.transactionIsolation) : Placed env s q c := by
  cases h with
  | kept held widened =>
    obtain ⟨list, pending⟩ := control
    refine .kept (held.of_sublist (fun m hm => ?_) fun m hm => ?_) (contexts ▸ widened)
    · change m ∈ s.messageList
      rw [← list]
      exact hm
    · change s.uncompletedMessage = some m
      rw [← pending]
      exact hm
  | routed lk s₀ asIn map alone =>
    exact .routed lk s₀ ⟨asIn.conn.trans conn, asIn.list.trans control.1,
      fun p hp => (asIn.others p hp).trans (by rw [contexts]), asIn.writing.trans writing,
      asIn.failed.trans failed, asIn.isolation.trans isolation⟩ map alone

theorem Routed.placed {lk : Lookups} {sql : String} {node : Node} (h : Routed env lk q sql node s u) :
    Placed env s q (u.contexts q) := by
  obtain ⟨s₀, hs, hmap⟩ := h.map
  refine .routed lk s₀ hs ?_ h.commitAlone
  rw [h.query, h.tree]
  exact hmap

/-- While a client is served, sending leaves the contexts alone. -/
theorem contexts_sendCalls {calls : List SendCall} (hreset : s.resetContext = false)
    (halone : CommitAlone env (s.contexts qc)) (hqc : s.queryContext = some qc)
    (hp : s.inProgress = true) : (sendCalls env qc calls s).contexts = s.contexts := by
  have hrecord : ∃ new, sendCalls env qc calls s = s.record new ∧ _ :=
    record_sendCalls fun i hi => commitSkips_of_serving hreset halone hqc hp hi
  obtain ⟨new, hnew, -⟩ := hrecord
  rw [hnew]
  rfl

theorem contexts_sendCalls_of_not_commit {calls : List SendCall}
    (h : isCommitQuery (s.contexts qc).parseTree = false) :
    (sendCalls env qc calls s).contexts = s.contexts := by
  have hrecord : ∃ new, sendCalls env qc calls s = s.record new ∧ _ :=
    record_sendCalls fun _ _ => commitSkips_of_not_commit h
  obtain ⟨new, hnew, -⟩ := hrecord
  rw [hnew]
  rfl

/-- Only a PREPARE leaves a message behind, whether a client is served or the session is reset. -/
theorem placed_simpleQuery {sql : String} (hlt : s.control.Held q → q < s.nextContext)
    (h : simpleQuery env ans sql s = some t) (hq : t.control.Held q) : Placed env s q (t.contexts q) := by
  have hold : s.control.Held q → (∀ p, p ≠ s.nextContext → t.contexts p = s.contexts p) →
      Placed env s q (t.contexts q) := by
    intro hs hother
    have hne : q ≠ s.nextContext := Nat.ne_of_lt (hlt hs)
    refine .kept hs ?_
    rw [hother q hne]
    exact .refl env _
  have hothers : ∀ p, p ≠ s.nextContext → t.contexts p = s.contexts p := by
    intro p hp
    rcases simpleQuery_cases h with ⟨-, -, -, hcontexts⟩ | ⟨v, string, hv, rfl⟩
    · exact hcontexts p hp
    · rw [contexts_sendCalls_ne hp]
      exact hv.others p hp
  rcases control_simpleQuery h with ⟨text, node, skip, ht⟩ | ht
  · rw [ht] at hq
    exact hold hq hothers
  · rw [ht] at hq
    cases hnode : env.statement sql with
    | prepareStmt name query =>
      rw [hnode] at hq
      by_cases hne : q = s.nextContext
      · rcases simpleQuery_cases h with ⟨-, -, hcur, -⟩ | ⟨v, string, hv, rfl⟩
        · -- a query that is answered on the spot is current no more
          have hsome := congrArg Control.queryContext ht
          rw [hnode] at hsome
          change t.queryContext = some s.nextContext at hsome
          rw [hcur] at hsome
          cases hsome
        · have hno : isCommitQuery (v.contexts s.nextContext).parseTree = false := by
            rw [hv.tree, hnode]
            rfl
          have hrouted : Routed env ans.lookups s.nextContext sql (env.statement sql) s _ :=
            routed_queryRouted
          obtain ⟨s₀, hs, hmap⟩ := hrouted.map
          rw [contexts_sendCalls_of_not_commit hno, hne]
          refine .routed ans.lookups s₀ hs ?_ ?_
          · rw [hv.map, hv.query, hv.tree]
            exact hmap
          · intro _ hc
            rw [hno] at hc
            cases hc
      · refine hold ?_ hothers
        rcases hq with ⟨m, hm, hmq⟩ | ⟨m, hm, hmq⟩
        · exact Or.inl ⟨m, hm, hmq⟩
        · cases hm
          exact absurd hmq.symm hne
    | _ =>
      rw [hnode] at hq
      exact hold hq hothers

theorem placed_parse {name stmt : String} (hx : s.doingExtendedQueryMessage = true)
    (hreset : s.resetContext = false) (h : parse env ans name stmt s = some t)
    (hq : t.control.Held q) : Placed env s q (t.contexts q) := by
  obtain ⟨m, u, v, hsent, rfl⟩ := parse_cases hx h
  obtain ⟨hm, hu⟩ := control_parseStart hsent.start
  obtain ⟨hrouted, -⟩ := routed_parseStart hsent.start
  have hmq : m.queryContext = s.nextContext := hm.queryContext
  have hv : v.contexts = u.contexts := hsent.ready.contexts
  have hvu : v.control = u.control := hsent.control
  have hcontexts : (sendCalls env m.queryContext
      (parseCalls env ans m.contents.toParse (v.masterNodeId env)) v).contexts = u.contexts := by
    rw [← hv]
    refine contexts_sendCalls (hsent.ready.reset.trans (hrouted.reset.trans hreset)) ?_ ?_ ?_
    · rw [hv, hmq]
      exact hrouted.commitAlone
    · rw [hmq]
      exact congrArg Control.queryContext (hvu.trans hu)
    · exact congrArg Control.inProgress (hvu.trans hu)
  rw [hcontexts]
  by_cases hne : q = s.nextContext
  · rw [hne]
    exact hrouted.placed
  · have hs : s.control.Held q := by
      rw [control_sendCalls, hvu, hu] at hq
      rcases hq with ⟨m', hm', hmq'⟩ | ⟨m', hm', hmq'⟩
      · exact Or.inl ⟨m', hm', hmq'⟩
      · cases hm'
        exact absurd (hmq'.symm.trans hmq) hne
    refine .kept hs ?_
    rw [hrouted.others q hne]
    exact .refl env _

/-- A message on behalf of the context of an entry, which is routed anew. -/
theorem placed_rerouted {m : SentMessage} {calls : List SendCall}
    (hreset : s.resetContext = false) (hp : s.inProgress = true)
    (hq : (sendCalls env m.queryContext calls (reroute env ans m s)).control.Held q) :
    Placed env s q ((sendCalls env m.queryContext calls (reroute env ans m s)).contexts q) := by
  obtain ⟨hrouted, -⟩ : Routed env ans.lookups m.queryContext _ _ s (reroute env ans m s) ∧ _ :=
    routed_reroute m
  have hcontrol : (reroute env ans m s).control = s.control.setCurrent m.queryContext :=
    control_reroute m
  rw [contexts_sendCalls (hrouted.reset.trans hreset) hrouted.commitAlone
    (congrArg Control.queryContext hcontrol) ((congrArg Control.inProgress hcontrol).trans hp)]
  rw [control_sendCalls, hcontrol] at hq
  by_cases hne : q = m.queryContext
  · rw [hne]
    exact hrouted.placed
  · refine .kept hq ?_
    rw [hrouted.others q hne]
    exact .refl env _

theorem placed_bind {portal stmtName : String} {params : List String} (hraw : env.rawMode = false)
    (hreset : s.resetContext = false) (hp : s.inProgress = true)
    (h : bind env ans portal stmtName params s = some t) (hq : t.control.Held q) :
    Placed env s q (t.contexts q) := by
  have hheld : s.control.Held q := by
    obtain ⟨pm, m, hnew, ht⟩ := control_bind h
    rw [ht] at hq
    rcases hq with ⟨m', hm', hmq'⟩ | ⟨m', hm', hmq'⟩
    · exact Or.inl ⟨m', hm', hmq'⟩
    · cases hm'
      exact Or.inl ⟨pm, hnew.found, hnew.queryContext.symm.trans hmq'⟩
  obtain ⟨pm, v, hpm, hparse, rfl⟩ := bind_cases h
  rw [bindStart_eq] at hparse
  obtain ⟨hrouted, -⟩ : Routed env ans.lookups pm.queryContext _ _ s
      (bindRouted env ans portal stmtName params pm s) ∧ _ :=
    routed_bindRouted portal stmtName params pm
  have hcontrol : (bindRouted env ans portal stmtName params pm s).control = _ :=
    control_bindRouted portal stmtName params pm
  generalize bindRouted env ans portal stmtName params pm s = r at hparse hrouted hcontrol
  have hcurrent : r.queryContext = some pm.queryContext := congrArg Control.queryContext hcontrol
  have hprogress : r.inProgress = true := (congrArg Control.inProgress hcontrol).trans hp
  have hv : v.contexts = r.contexts ∧ v.resetContext = r.resetContext := by
    unfold bindParse at hparse
    split at hparse
    · have hopen : ∀ i ∈ (r.emit _).validNodes env, (r.emit _).commitSkips env pm.queryContext i =
          false := fun i hi => commitSkips_of_serving (s := r.emit
            (.routed (boundMessage portal stmtName params pm s)
              (r.contexts pm.queryContext).whereToSend)) (hrouted.reset.trans hreset)
            hrouted.commitAlone hcurrent hprogress hi
      obtain ⟨new, rfl, -⟩ := parsedBefore_parseBeforeBind hraw (by exact hcurrent)
        (by exact hprogress) hopen hparse
      exact ⟨rfl, rfl⟩
    · cases hparse
      exact ⟨rfl, rfl⟩
  have hvc : v.control = r.control := (control_bindParse hparse).trans (control_emit _)
  obtain ⟨hcontexts, hvreset⟩ := hv
  rw [contexts_sendCalls (hvreset.trans (hrouted.reset.trans hreset))
    (hcontexts ▸ hrouted.commitAlone) ((congrArg Control.queryContext hvc).trans hcurrent)
    ((congrArg Control.inProgress hvc).trans hprogress), hcontexts]
  by_cases hne : q = pm.queryContext
  · rw [hne]
    exact hrouted.placed
  · refine .kept hheld ?_
    rw [hrouted.others q hne]
    exact .refl env _

/-- A Close goes to the nodes of the map as it is. -/
theorem placed_close {target : Target} {name : String} (hreset : s.resetContext = false)
    (hp : s.inProgress = true)
    (halone : ∀ q, s.control.Held q → CommitAlone env (s.contexts q))
    (h : close env target name s = some t) (hq : t.control.Held q) :
    Placed env s q (t.contexts q) := by
  obtain ⟨m, v, hm, rfl, rfl⟩ := close_cases h
  have hmem : m ∈ s.messageList := targetMessage_mem hm
  rw [control_sendCalls] at hq
  have hs : s.control.Held q := by
    refine hq.of_subset (fun m' hm' => .of_mem hm') fun m' hm' => ?_
    cases hm'
    exact .of_mem hmem
  generalize masterFirst (.close target name) _ = calls
  have hcontexts : (sendCalls env m.queryContext calls
      ((s.setUncompletedMessage (some m)).setQueryContext m.queryContext)).contexts = s.contexts :=
    contexts_sendCalls (s := (s.setUncompletedMessage (some m)).setQueryContext m.queryContext)
      hreset (halone _ (.of_mem hmem)) rfl hp
  rw [hcontexts]
  exact .kept hs (.refl env _)

theorem startMessage_fields : s.startMessage.conn = s.conn ∧
    (s.startMessage.messageList = s.messageList ∧
      s.startMessage.uncompletedMessage = s.uncompletedMessage) ∧
    s.startMessage.contexts = s.contexts ∧
    s.startMessage.writingTransaction = s.writingTransaction ∧
    s.startMessage.failedTransaction = s.failedTransaction ∧
    s.startMessage.transactionIsolation = s.transactionIsolation ∧
    s.startMessage.resetContext = s.resetContext ∧
    s.startMessage.nextContext = s.nextContext := by
  unfold startMessage
  split <;> exact ⟨rfl, ⟨rfl, rfl⟩, rfl, rfl, rfl, rfl, rfl, rfl⟩

theorem Placed.of_startMessage {c : QueryContext} (h : Placed env s.startMessage q c) :
    Placed env s q c := by
  obtain ⟨conn, control, contexts, writing, failed, isolation, -, -⟩ := s.startMessage_fields
  exact h.of_eq conn control contexts writing failed isolation

/-- **Messages from the frontend** route the context of a sent message anew, or leave it alone. -/
theorem placed_processFrontendResponse {msg : FrontendMsg} (hraw : env.rawMode = false)
    (hkeyed : s.control.WellKeyed) (hp : s.inProgress = false) (hreset : s.resetContext = false)
    (halone : ∀ q, s.control.Held q → CommitAlone env (s.contexts q))
    (h : processFrontendResponse env ans msg s = some t) (hq : t.control.Held q) :
    Placed env s q (t.contexts q) := by
  have hflags : ∀ {b : Bool} {c : QueryContext},
      Placed env (s.unsetDoingExtendedQueryMessage.setAllowCloseTransaction b) q c →
        Placed env s q c := fun h => h.of_eq rfl ⟨rfl, rfl⟩ rfl rfl rfl rfl
  have hflag : ∀ {c : QueryContext}, Placed env s.unsetDoingExtendedQueryMessage q c →
      Placed env s q c := fun h => h.of_eq rfl ⟨rfl, rfl⟩ rfl rfl rfl rfl
  have hext : ∀ {u : Session} {c : QueryContext}, Placed env u.startExtended q c →
      Placed env u q c := by
    intro u c h
    have hu : Placed env u.setDoingExtendedQueryMessage q c := h.of_startMessage
    exact hu.of_eq rfl ⟨rfl, rfl⟩ rfl rfl rfl rfl
  have hresets : ∀ u : Session, u.resetContext = s.resetContext →
      u.startMessage.resetContext = false := by
    intro u hu
    obtain ⟨-, -, -, -, -, -, hsame, -⟩ := u.startMessage_fields
    exact hsame.trans (hu.trans hreset)
  unfold processFrontendResponse at h
  split at h
  · cases h
    exact .kept hq (.refl env _)
  · rename_i hi
    have hopen : ∀ {msg' : FrontendMsg}, msg = msg' → msg'.isSync = false →
        s.ignoreTillSync = false := by
      intro msg' hmsg hsync
      subst hmsg
      simpa [hsync] using hi
    -- the query is in progress once the message has been started
    have hstarted : ∀ u : Session, u.inProgress = false → u.ignoreTillSync = false →
        u.startMessage.inProgress = true := by
      intro u hup hui
      simp [startMessage, hup, hui, setQueryInProgress]
    cases msg with
    | query sql => exact hflags (placed_simpleQuery (fun hs => hkeyed.held_lt hs) h hq)
    | execute portal =>
      obtain ⟨m, hm, rfl⟩ := execute_cases h
      exact hflags (hext (placed_rerouted (hresets _ rfl) (hstarted _ hp (hopen rfl rfl)) hq))
    | parse name stmt =>
      refine hflags (hext (placed_parse ?_ (hresets _ rfl) h hq))
      have hc : (s.unsetDoingExtendedQueryMessage.setAllowCloseTransaction false).startExtended.control =
          s.control.startExtended := control_startMessage hp (hopen rfl rfl)
      exact congrArg Control.doingExtendedQueryMessage hc
    | bind portal stmtName params =>
      exact hflag (hext (placed_bind hraw (hresets _ rfl) (hstarted _ hp (hopen rfl rfl)) h hq))
    | close target name =>
      have hsame := s.unsetDoingExtendedQueryMessage.startMessage_fields
      obtain ⟨-, ⟨list, pending⟩, contexts, -, -, -, -, -⟩ := hsame
      have hplaced : Placed env s.unsetDoingExtendedQueryMessage.startMessage q (t.contexts q) := by
        refine placed_close (hresets _ rfl) (hstarted _ hp (hopen rfl rfl)) (fun p hheld => ?_) h hq
        rw [contexts]
        refine halone p (hheld.of_sublist (fun m hm => ?_) fun m hm => ?_)
        · change m ∈ s.unsetDoingExtendedQueryMessage.messageList
          rw [← list]
          exact hm
        · change s.unsetDoingExtendedQueryMessage.uncompletedMessage = some m
          rw [← pending]
          exact hm
      exact hflag hplaced.of_startMessage
    | describe target name =>
      obtain ⟨m, hm, rfl⟩ := describe_cases h
      exact hflag (hext (placed_rerouted (hresets _ rfl) (hstarted _ hp (hopen rfl rfl)) hq))
    | sync =>
      cases h
      exact .kept hq (.refl env _)
    | functionCall =>
      cases h
      have hrouted : Routed env ans.lookups s.unsetDoingExtendedQueryMessage.nextContext
          "INSERT INTO foo VALUES(1)" functionCallQuery s.unsetDoingExtendedQueryMessage
          (queryRouted env ans.lookups "INSERT INTO foo VALUES(1)" functionCallQuery
            s.unsetDoingExtendedQueryMessage) := routed_queryRouted
      rw [control_processFunctionCall] at hq
      have hs : s.control.Held q := hq
      refine .kept hs ?_
      have hne : q ≠ s.nextContext := Nat.ne_of_lt (hkeyed.held_lt hs)
      change Widened env (s.contexts q) ((queryRouted env ans.lookups "INSERT INTO foo VALUES(1)"
        functionCallQuery s.unsetDoingExtendedQueryMessage).contexts q)
      rw [hrouted.others q hne]
      exact .refl env _
    | forward message =>
      simp only [processMessage] at h
      split at h
      · cases h
      · cases h
        exact .kept hq (.refl env _)

theorem reset_sendCalls {calls : List SendCall} :
    (sendCalls env qc calls s).resetContext = s.resetContext := by
  induction calls generalizing s with
  | nil => rfl
  | cons c rest ih =>
    refine ih.trans ?_
    simp only [poolSendAndWait_eq]
    rfl

theorem reset_reroute (m : SentMessage) :
    (reroute env ans m s).resetContext = s.resetContext := by
  obtain ⟨hrouted, -⟩ : Routed env ans.lookups m.queryContext _ _ s (reroute env ans m s) ∧ _ :=
    routed_reroute m
  exact hrouted.reset

theorem reset_bindParse {m : SentMessage} (h : bindParse env ans m s = some t) :
    t.resetContext = s.resetContext := by
  have hstep : ∀ (nodes : List NodeId) (u : Session), (nodes.foldl (parseBeforeBindStep env
      m.queryContext m.contents.toParse) u).resetContext = u.resetContext := by
    intro nodes
    induction nodes with
    | nil => exact fun _ => rfl
    | cons i rest ih =>
      intro u
      refine (ih _).trans ?_
      unfold parseBeforeBindStep
      simp only
      split
      · rw [poolSendAndWait_eq]
        rfl
      · rfl
  unfold bindParse at h
  split at h
  · unfold parseBeforeBind at h
    simp only at h
    split at h
    · split at h
      · cases h
        exact hstep env.nodes s
      · cases h
    · cases h
      exact hstep env.nodes s
  · cases h
    rfl

/-- A message from the frontend does not change the reset context. -/
theorem reset_processFrontendResponse {msg : FrontendMsg} (hp : s.inProgress = false)
    (h : processFrontendResponse env ans msg s = some t) : t.resetContext = s.resetContext := by
  have hstart : ∀ u : Session, u.startMessage.resetContext = u.resetContext := by
    intro u
    obtain ⟨-, -, -, -, -, -, hsame, -⟩ := u.startMessage_fields
    exact hsame
  unfold processFrontendResponse at h
  split at h
  · cases h
    rfl
  · rename_i hi
    cases msg with
    | query sql =>
      rcases simpleQuery_cases h with ⟨-, hreset, -⟩ | ⟨v, string, hv, rfl⟩
      · exact hreset
      · exact reset_sendCalls.trans hv.follows.reset
    | execute portal =>
      obtain ⟨m, hm, rfl⟩ := execute_cases h
      exact (reset_sendCalls.trans (reset_reroute m)).trans (hstart _)
    | parse name stmt =>
      have ho : s.ignoreTillSync = false := by simpa [FrontendMsg.isSync] using hi
      have hc : (s.unsetDoingExtendedQueryMessage.setAllowCloseTransaction false).startExtended.control =
          s.control.startExtended := control_startMessage hp ho
      obtain ⟨m, u, v, hsent, rfl⟩ :=
        parse_cases (congrArg Control.doingExtendedQueryMessage hc) h
      obtain ⟨hrouted, -⟩ := routed_parseStart hsent.start
      exact reset_sendCalls.trans (hsent.ready.reset.trans (hrouted.reset.trans (hstart _)))
    | bind portal stmtName params =>
      obtain ⟨pm, v, hpm, hparse, rfl⟩ := bind_cases h
      obtain ⟨hrouted, -⟩ : Routed env ans.lookups pm.queryContext _ _
          s.unsetDoingExtendedQueryMessage.startExtended (bindRouted env ans portal stmtName params pm
            s.unsetDoingExtendedQueryMessage.startExtended) ∧ _ :=
        routed_bindRouted portal stmtName params pm
      rw [bindStart_eq] at hparse
      exact reset_sendCalls.trans ((reset_bindParse hparse).trans (hrouted.reset.trans (hstart _)))
    | close target name =>
      obtain ⟨m, v, hm, rfl, rfl⟩ := close_cases h
      exact reset_sendCalls.trans (hstart _)
    | describe target name =>
      obtain ⟨m, hm, rfl⟩ := describe_cases h
      exact (reset_sendCalls.trans (reset_reroute m)).trans (hstart _)
    | sync =>
      cases h
      rfl
    | functionCall =>
      cases h
      rfl
    | forward message =>
      simp only [processMessage] at h
      split at h
      · cases h
      · cases h
        rfl

/-! ## Reset queries -/

theorem placed_resetBackend {qcnt : Nat} {result : ResetResult} (hkeyed : s.control.WellKeyed)
    (h : resetBackend env ans qcnt s = some (t, result)) (hq : t.control.Held q) :
    Placed env s q (t.contexts q) := by
  have hquery : ∀ {sql : String} {u : Session},
      simpleQuery env ans sql { s with resetContext := true, inProgress := false } = some u →
        u.control.Held q → Placed env s q (u.contexts q) := by
    intro sql u hu huq
    have hplaced : Placed env { s with resetContext := true, inProgress := false } q
        (u.contexts q) := placed_simpleQuery (fun hs => hkeyed.held_lt hs) hu huq
    exact hplaced.of_eq rfl ⟨rfl, rfl⟩ rfl rfl rfl rfl
  have hremove : ∀ (u : Session) (kind : MsgKind) (name : String),
      (u.removeSentMessage kind name).1.control.Held q → u.control.Held q ∧
        (u.removeSentMessage kind name).1.contexts = u.contexts := by
    intro u kind name hu
    rw [control_removeSentMessage] at hu
    exact ⟨held_removeMessage hu, (quiet_removeSentMessage (P := fun _ => True) kind name).contexts⟩
  unfold resetBackend at h
  simp only at h
  split at h
  · unfold resetMessage at h
    split at h
    · cases h
      exact .kept hq (.refl env _)
    · split at h
      · split at h
        · cases h
        · rename_i u hu
          cases h
          obtain ⟨huq, hcontexts⟩ := hremove u _ _ hq
          rw [hcontexts]
          exact hquery hu huq
      · cases h
        obtain ⟨huq, hcontexts⟩ := hremove _ _ _ hq
        rw [hcontexts]
        exact .kept huq (.refl env _)
  · split at h
    · cases h
      exact .kept hq (.refl env _)
    · split at h
      · cases h
      · rename_i hu
        cases h
        exact hquery hu hq

end Session

end PgPool
