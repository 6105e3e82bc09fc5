import PgPool.Control.Child

/-!
# The list of sent messages in every reachable state

The list has at most one entry for a kind and a name, and a query context serves either a Parse or a
SQL PREPARE.  No step of a child breaks this.
-/

namespace PgPool

open Keyed

namespace Control

/-- The state of the list in every reachable state. -/
structure WellKeyed (c : Control) : Prop where
  distinct : Distinct SentMessage.key c.messageList
  fresh : ∀ m ∈ c.messageList, m.id < c.nextMessage
  allocated : ∀ m ∈ c.messageList, m.queryContext < c.nextContext
  unmixed : ∀ m ∈ c.messageList, ∀ m' ∈ c.messageList,
    m.queryContext = m'.queryContext → m.kind = .P → m'.kind ≠ .Q
  pendingFresh : ∀ u, c.uncompletedMessage = some u → u.id < c.nextMessage
  pendingAllocated : ∀ u, c.uncompletedMessage = some u → u.queryContext < c.nextContext
  pendingUnmixed : ∀ u, c.uncompletedMessage = some u → ∀ m ∈ c.messageList,
    u.queryContext = m.queryContext →
      ¬ (u.kind = .P ∧ m.kind = .Q) ∧ ¬ (u.kind = .Q ∧ m.kind = .P)

namespace WellKeyed

variable {c d : Control} {m : SentMessage} {kind : MsgKind} {name : String}

/-- A state with fewer entries and fewer pending messages. -/
theorem of_sublist (h : WellKeyed c) (list : d.messageList.Sublist c.messageList)
    (pending : ∀ u, d.uncompletedMessage = some u → c.uncompletedMessage = some u)
    (messages : c.nextMessage ≤ d.nextMessage) (contexts : c.nextContext ≤ d.nextContext) :
    WellKeyed d where
  distinct := h.distinct.sublist (list.map _)
  fresh m hm := Nat.lt_of_lt_of_le (h.fresh m (list.subset hm)) messages
  allocated m hm := Nat.lt_of_lt_of_le (h.allocated m (list.subset hm)) contexts
  unmixed m hm m' hm' := h.unmixed m (list.subset hm) m' (list.subset hm')
  pendingFresh u hu := Nat.lt_of_lt_of_le (h.pendingFresh u (pending u hu)) messages
  pendingAllocated u hu := Nat.lt_of_lt_of_le (h.pendingAllocated u (pending u hu)) contexts
  pendingUnmixed u hu m hm := h.pendingUnmixed u (pending u hu) m (list.subset hm)

/-- A state that differs in other parts. -/
theorem of_eq (h : WellKeyed c) (list : d.messageList = c.messageList)
    (pending : d.uncompletedMessage = c.uncompletedMessage)
    (messages : d.nextMessage = c.nextMessage) (contexts : c.nextContext ≤ d.nextContext) :
    WellKeyed d :=
  h.of_sublist (list ▸ List.Sublist.refl _) (fun _ hu => pending ▸ hu) (Nat.le_of_eq messages.symm)
    contexts

end WellKeyed

variable {c d : Control} {m : SentMessage} {kind : MsgKind} {name : String}

/-! ## What the operations leave alone -/

theorem uncompletedMessage_release (qc : QcId) :
    (c.release qc).uncompletedMessage = c.uncompletedMessage := by
  unfold release
  split <;> rfl

theorem nextMessage_release (qc : QcId) : (c.release qc).nextMessage = c.nextMessage := by
  unfold release
  split <;> rfl

theorem nextContext_release (qc : QcId) : (c.release qc).nextContext = c.nextContext := by
  unfold release
  split <;> rfl

theorem messageList_removeMessage : (c.removeMessage kind name).messageList =
    Keyed.remove SentMessage.key (kind, name) c.messageList := by
  unfold removeMessage
  cases hf : c.find kind name with
  | none => exact (Keyed.remove_eq_self hf).symm
  | some m => rfl

theorem uncompletedMessage_removeMessage :
    (c.removeMessage kind name).uncompletedMessage = c.uncompletedMessage := by
  unfold removeMessage
  cases c.find kind name with
  | none => rfl
  | some m => exact uncompletedMessage_release _

theorem nextMessage_removeMessage : (c.removeMessage kind name).nextMessage = c.nextMessage := by
  unfold removeMessage
  cases c.find kind name with
  | none => rfl
  | some m => exact nextMessage_release _

theorem nextContext_removeMessage : (c.removeMessage kind name).nextContext = c.nextContext := by
  unfold removeMessage
  cases c.find kind name with
  | none => rfl
  | some m => exact nextContext_release _

theorem inProgress_removeMessage : (c.removeMessage kind name).inProgress = c.inProgress := by
  unfold removeMessage release
  cases c.find kind name with
  | none => rfl
  | some m =>
    simp only
    split <;> rfl

theorem doingExtendedQueryMessage_removeMessage :
    (c.removeMessage kind name).doingExtendedQueryMessage = c.doingExtendedQueryMessage := by
  unfold removeMessage release
  cases c.find kind name with
  | none => rfl
  | some m =>
    simp only
    split <;> rfl

theorem statement_removeMessage : (c.removeMessage kind name).statement = c.statement := by
  unfold removeMessage release
  cases c.find kind name with
  | none => rfl
  | some m =>
    simp only
    split <;> rfl

theorem removeMessage_setUncompleted (u : Option SentMessage) :
    (c.setUncompleted u).removeMessage kind name = (c.removeMessage kind name).setUncompleted u := by
  unfold removeMessage release
  rw [show (c.setUncompleted u).find kind name = c.find kind name from rfl]
  cases c.find kind name with
  | none => rfl
  | some m =>
    simp only [show (c.setUncompleted u).refCount m.queryContext = c.refCount m.queryContext from rfl]
    split <;> rfl

/-- Adding a message: an older entry of that kind and name goes if the name is empty, and stands in
the way otherwise. -/
theorem messageList_addMessage : (c.addMessage m).messageList =
    if c.find m.kind m.name ≠ none ∧ m.name ≠ "" then c.messageList
    else Keyed.remove SentMessage.key m.key c.messageList ++ [m] := by
  unfold addMessage
  cases hf : c.find m.kind m.name with
  | none =>
    have hself : Keyed.remove SentMessage.key m.key c.messageList = c.messageList :=
      Keyed.remove_eq_self hf
    simp only [ne_eq, not_true, false_and, if_false, hself]
    rfl
  | some old =>
    by_cases hname : m.name = ""
    · simp only [hname, ne_eq, not_true, and_false, if_false, if_true]
      change (c.removeMessage m.kind "").messageList ++ [m] = _
      rw [messageList_removeMessage, ← hname]
      rfl
    · simp [hname]

theorem uncompletedMessage_addMessage :
    (c.addMessage m).uncompletedMessage = c.uncompletedMessage := by
  unfold addMessage
  cases c.find m.kind m.name with
  | none => rfl
  | some old =>
    simp only
    split
    · exact uncompletedMessage_removeMessage
    · rfl

theorem doingExtendedQueryMessage_addMessage :
    (c.addMessage m).doingExtendedQueryMessage = c.doingExtendedQueryMessage := by
  unfold addMessage
  cases c.find m.kind m.name with
  | none => rfl
  | some old =>
    simp only
    split
    · exact doingExtendedQueryMessage_removeMessage
    · rfl

theorem nextMessage_addMessage : (c.addMessage m).nextMessage = c.nextMessage := by
  unfold addMessage
  cases c.find m.kind m.name with
  | none => rfl
  | some old =>
    simp only
    split
    · exact nextMessage_removeMessage
    · rfl

theorem nextContext_addMessage : (c.addMessage m).nextContext = c.nextContext := by
  unfold addMessage
  cases c.find m.kind m.name with
  | none => rfl
  | some old =>
    simp only
    split
    · exact nextContext_removeMessage
    · rfl

theorem doingExtendedQueryMessage_complete :
    c.complete.doingExtendedQueryMessage = c.doingExtendedQueryMessage := by
  unfold complete
  cases c.uncompletedMessage with
  | none => rfl
  | some m => exact doingExtendedQueryMessage_addMessage

/-- No reply tells the child that a message of the extended protocol has come or gone. -/
theorem Replied.doingExtendedQueryMessage {reply : Reply} (h : Replied c reply d) :
    d.doingExtendedQueryMessage = c.doingExtendedQueryMessage := by
  have hends : ∀ e : Control, e.endExtended.doingExtendedQueryMessage =
      e.doingExtendedQueryMessage := by
    intro e
    unfold endExtended
    split <;> rfl
  cases h with
  | ignored | skipped | copyIn | other | v2 => rfl
  | ready =>
    unfold readyForQuery
    split
    · rfl
    · split
      · rfl
      · split <;> rfl
  | parseComplete | bindComplete => exact doingExtendedQueryMessage_complete
  | closeComplete => exact doingExtendedQueryMessage_removeMessage
  | error =>
    have herror : ∀ e : Control, e.endError.doingExtendedQueryMessage =
        e.doingExtendedQueryMessage := by
      intro e
      unfold endError
      split <;> rfl
    rw [herror]
    unfold dropUncompleted
    cases c.uncompletedMessage with
    | none => rfl
    | some m =>
      exact doingExtendedQueryMessage_removeMessage.trans doingExtendedQueryMessage_addMessage
  | @command _ _ _ e completed =>
    rw [hends]
    change e.doingExtendedQueryMessage = _
    cases completed with
    | prepare => exact doingExtendedQueryMessage_complete
    | other _ removals =>
      exact removals.invariant
        (I := fun e => e.doingExtendedQueryMessage = c.doingExtendedQueryMessage)
        (fun _ _ _ he => doingExtendedQueryMessage_removeMessage.trans he) rfl
  | ends => exact hends c

theorem Queried.doingExtendedQueryMessage {env : Setup} {sql : String} (h : Queried env c sql d) :
    d.doingExtendedQueryMessage = c.doingExtendedQueryMessage := by
  cases h with
  | answered => rfl
  | sent =>
    unfold simpleQuery
    split <;> rfl

/-- Nor does the reset. -/
theorem ResetStep.doingExtendedQueryMessage {env : Setup} {result : Session.ResetResult}
    (h : ResetStep env c result d) :
    d.doingExtendedQueryMessage = c.doingExtendedQueryMessage := by
  cases h with
  | abortSkipped | done => rfl
  | query queried => exact queried.doingExtendedQueryMessage
  | deallocate _ queried =>
    exact doingExtendedQueryMessage_removeMessage.trans queried.doingExtendedQueryMessage
  | remove => exact doingExtendedQueryMessage_removeMessage

/-! ## The invariant -/

theorem WellKeyed.removeMessage (h : WellKeyed c) (kind : MsgKind) (name : String) :
    WellKeyed (c.removeMessage kind name) :=
  h.of_sublist (messageList_removeMessage ▸ List.eraseP_sublist)
    (fun _ hu => uncompletedMessage_removeMessage ▸ hu) (Nat.le_of_eq nextMessage_removeMessage.symm)
    (Nat.le_of_eq nextContext_removeMessage.symm)

theorem WellKeyed.removals (h : WellKeyed c) (hr : Removals c d) : WellKeyed d :=
  hr.invariant (fun _ kind name h => h.removeMessage kind name) h

/-- Adding the pending message and forgetting about it. -/
theorem WellKeyed.addMessage (h : WellKeyed c) (hm : c.uncompletedMessage = some m) :
    WellKeyed ((c.addMessage m).setUncompleted none) := by
  have hlist := messageList_addMessage (c := c) (m := m)
  by_cases hkeep : c.find m.kind m.name ≠ none ∧ m.name ≠ ""
  · rw [if_pos hkeep] at hlist
    exact h.of_sublist (hlist ▸ List.Sublist.refl _) (nofun)
      (Nat.le_of_eq nextMessage_addMessage.symm) (Nat.le_of_eq nextContext_addMessage.symm)
  · rw [if_neg hkeep] at hlist
    have hmem : ∀ x ∈ ((c.addMessage m).setUncompleted none).messageList,
        x ∈ c.messageList ∨ x = m := by
      intro x hx
      change x ∈ (c.addMessage m).messageList at hx
      rw [hlist, List.mem_append, List.mem_singleton] at hx
      exact hx.imp_left Keyed.mem_of_mem_remove
    have hpend := h.pendingUnmixed m hm
    refine ⟨?_, ?_, ?_, ?_, nofun, nofun, nofun⟩
    · change Distinct SentMessage.key (c.addMessage m).messageList
      rw [hlist]
      exact (h.distinct.remove _).append_singleton (h.distinct.lookup_remove _)
    · intro x hx
      change x.id < (c.addMessage m).nextMessage
      rw [nextMessage_addMessage]
      rcases hmem x hx with hx | rfl
      · exact h.fresh x hx
      · exact h.pendingFresh x hm
    · intro x hx
      change x.queryContext < (c.addMessage m).nextContext
      rw [nextContext_addMessage]
      rcases hmem x hx with hx | rfl
      · exact h.allocated x hx
      · exact h.pendingAllocated x hm
    · intro x hx y hy heq hP hQ
      rcases hmem x hx with hxl | hxm <;> rcases hmem y hy with hyl | hym
      · exact h.unmixed x hxl y hyl heq hP hQ
      · exact (hpend x hxl (hym ▸ heq.symm)).2 ⟨hym ▸ hQ, hP⟩
      · exact (hpend y hyl (hxm ▸ heq)).1 ⟨hxm ▸ hP, hQ⟩
      · rw [hym, ← hxm, hP] at hQ
        cases hQ

theorem WellKeyed.complete (h : WellKeyed c) : WellKeyed c.complete := by
  unfold Control.complete
  cases hm : c.uncompletedMessage with
  | none => exact h
  | some m => exact h.addMessage hm

theorem WellKeyed.dropUncompleted (h : WellKeyed c) : WellKeyed c.dropUncompleted := by
  unfold Control.dropUncompleted
  cases hm : c.uncompletedMessage with
  | none => exact h
  | some m =>
    refine ((h.addMessage hm).removeMessage m.kind m.name).of_sublist ?_ (nofun) ?_ ?_
    · change (((c.addMessage m).removeMessage m.kind m.name).messageList).Sublist _
      rw [messageList_removeMessage, messageList_removeMessage]
      exact List.Sublist.refl _
    · change _ ≤ ((c.addMessage m).removeMessage m.kind m.name).nextMessage
      rw [nextMessage_removeMessage, nextMessage_removeMessage]
      exact Nat.le_refl _
    · change _ ≤ ((c.addMessage m).removeMessage m.kind m.name).nextContext
      rw [nextContext_removeMessage, nextContext_removeMessage]
      exact Nat.le_refl _

/-- A new message on behalf of a new context. -/
theorem WellKeyed.attemptNew (h : WellKeyed c) (sql : String) (node : Node)
    (hid : m.id = c.nextMessage) (hqc : m.queryContext = c.nextContext) :
    WellKeyed ((c.startQuery sql node).attempt m) where
  distinct := h.distinct
  fresh x hx := Nat.lt_succ_of_lt (h.fresh x hx)
  allocated x hx := Nat.lt_succ_of_lt (h.allocated x hx)
  unmixed := h.unmixed
  pendingFresh := by
    rintro u ⟨⟩
    exact hid ▸ Nat.lt_succ_self _
  pendingAllocated := by
    rintro u ⟨⟩
    exact hqc ▸ Nat.lt_succ_self _
  pendingUnmixed := by
    rintro u ⟨⟩ x hx heq
    have hlt : x.queryContext < c.nextContext := h.allocated x hx
    rw [← heq, hqc] at hlt
    exact absurd hlt (Nat.lt_irrefl _)

/-- A new message on behalf of the context of an entry. -/
theorem WellKeyed.attemptBind {portal stmtName : String} {pm : SentMessage} (h : WellKeyed c)
    (hm : NewBind c portal stmtName pm m) : WellKeyed ((c.attempt m).setCurrent pm.queryContext) where
  distinct := h.distinct
  fresh x hx := Nat.lt_succ_of_lt (h.fresh x hx)
  allocated := h.allocated
  unmixed := h.unmixed
  pendingFresh := by
    rintro u ⟨⟩
    exact hm.id ▸ Nat.lt_succ_self _
  pendingAllocated := by
    rintro u ⟨⟩
    exact hm.queryContext ▸ h.allocated pm hm.found
  pendingUnmixed := by
    rintro u ⟨⟩ x hx heq
    simp [hm.kind]

/-- The uncompleted message of a Close. -/
theorem WellKeyed.closing (h : WellKeyed c) (hm : m ∈ c.messageList) :
    WellKeyed ((c.setUncompleted (some m)).setCurrent m.queryContext) where
  distinct := h.distinct
  fresh := h.fresh
  allocated := h.allocated
  unmixed := h.unmixed
  pendingFresh := by
    rintro u ⟨⟩
    exact h.fresh m hm
  pendingAllocated := by
    rintro u ⟨⟩
    exact h.allocated m hm
  pendingUnmixed := by
    rintro u ⟨⟩ x hx heq
    exact ⟨fun hk => h.unmixed m hm x hx heq hk.1 hk.2,
      fun hk => h.unmixed x hx m hm heq.symm hk.2 hk.1⟩

theorem WellKeyed.startQuery (h : WellKeyed c) (sql : String) (node : Node) :
    WellKeyed (c.startQuery sql node) :=
  h.of_eq rfl rfl rfl (Nat.le_succ _)

theorem WellKeyed.answerQuery (h : WellKeyed c) (sql : String) (node : Node) (skip : Bool) :
    WellKeyed (c.answerQuery sql node skip) :=
  h.of_eq rfl rfl rfl (Nat.le_succ _)

theorem WellKeyed.simpleQuery (h : WellKeyed c) (sql : String) (node : Node) :
    WellKeyed (c.simpleQuery sql node) := by
  cases node with
  | prepareStmt name query => exact h.attemptNew _ _ rfl rfl
  | _ => exact h.startQuery _ _

theorem WellKeyed.readyForQuery (h : WellKeyed c) : WellKeyed c.readyForQuery := by
  unfold Control.readyForQuery
  split
  · exact h.of_eq rfl rfl rfl (Nat.le_refl _)
  · split
    · exact h.of_eq rfl rfl rfl (Nat.le_refl _)
    · split
      · exact h.of_eq rfl rfl rfl (Nat.le_refl _)
      · exact h.of_eq rfl rfl rfl (Nat.le_refl _)

theorem WellKeyed.endExtended (h : WellKeyed c) : WellKeyed c.endExtended := by
  unfold Control.endExtended
  split
  · exact h.of_eq rfl rfl rfl (Nat.le_refl _)
  · exact h

theorem WellKeyed.endError (h : WellKeyed c) : WellKeyed c.endError := by
  unfold Control.endError
  split <;> exact h.of_eq rfl rfl rfl (Nat.le_refl _)

theorem WellKeyed.received {env : Setup} {msg : FrontendMsg} (h : WellKeyed c)
    (hr : Received env c msg d) : WellKeyed d := by
  have hext : WellKeyed c.startExtended := h.of_eq rfl rfl rfl (Nat.le_refl _)
  have hplain : WellKeyed (c.setExtended false) := h.of_eq rfl rfl rfl (Nat.le_refl _)
  cases hr with
  | ignored => exact h
  | answered text node skip => exact hplain.answerQuery text node skip
  | query => exact hplain.simpleQuery _ _
  | parse new => exact hext.attemptNew _ _ new.id new.queryContext
  | bind new =>
    exact hext.attemptBind
      ⟨new.found, new.statement, new.stmtName, new.id, new.kind, new.name, new.queryContext⟩
  | describe => exact hext.of_eq rfl rfl rfl (Nat.le_refl _)
  | execute => exact hext.of_eq rfl rfl rfl (Nat.le_refl _)
  | close found =>
    have hstart : WellKeyed ((c.setExtended false).setInProgress true) :=
      h.of_eq rfl rfl rfl (Nat.le_refl _)
    exact hstart.closing found
  | sync => exact hext.of_eq rfl rfl rfl (Nat.le_refl _)
  | functionCall => exact hplain.startQuery _ _
  | forward => exact hplain

theorem WellKeyed.completed (h : WellKeyed c) (hc : Completed c d) : WellKeyed d := by
  cases hc with
  | prepare => exact h.complete
  | other _ removals => exact h.removals removals

theorem WellKeyed.replied {reply : Reply} (h : WellKeyed c) (hr : Replied c reply d) :
    WellKeyed d := by
  cases hr with
  | ignored | v2 | copyIn | other => exact h
  | skipped => exact h.of_eq rfl rfl rfl (Nat.le_refl _)
  | ready => exact h.readyForQuery
  | parseComplete | bindComplete => exact h.complete.of_eq rfl rfl rfl (Nat.le_refl _)
  | closeComplete =>
    exact (h.removeMessage _ _).of_sublist (List.Sublist.refl _) (nofun) (Nat.le_refl _)
      (Nat.le_refl _)
  | error => exact h.dropUncompleted.endError
  | command hc =>
    have hd := (h.completed hc).of_eq (d := Control.setSuccess _) rfl rfl rfl (Nat.le_refl _)
    exact hd.endExtended
  | ends => exact h.endExtended

theorem WellKeyed.queried {env : Setup} {sql : String} (h : WellKeyed c)
    (hq : Queried env c sql d) : WellKeyed d := by
  cases hq with
  | answered text node skip => exact h.answerQuery text node skip
  | sent => exact h.simpleQuery _ _

theorem WellKeyed.resetStep {env : Setup} {result : Session.ResetResult} (h : WellKeyed c)
    (hr : ResetStep env c result d) : WellKeyed d := by
  cases hr with
  | abortSkipped | done => exact h
  | query queried => exact h.queried queried
  | deallocate _ queried => exact (h.queried queried).removeMessage _ _
  | remove => exact h.removeMessage _ _

theorem WellKeyed.ended (h : WellKeyed c) : WellKeyed c.ended :=
  h.of_sublist (List.nil_sublist _) (nofun) (Nat.le_refl _) (Nat.le_refl _)

end Control

namespace Child

open Control

variable {env : Setup} {c c' : Child} {e : Event} {P : Child → Event → Prop}

theorem wellKeyed_destroy {s : Session} (h : WellKeyed s.control) :
    WellKeyed s.sessionContextDestroy.control := by
  rw [Session.control_sessionContextDestroy]
  exact (h.removals Session.removals_clearSentMessageList).ended

theorem wellKeyed_reset {ans : Answers} {qcnt : Nat} (h : WellKeyed c.session.control) :
    WellKeyed (c.reset env ans qcnt).session.control := by
  have hstart : WellKeyed (c.session.control.setInProgress false) :=
    h.of_eq rfl rfl rfl (Nat.le_refl _)
  unfold reset
  split
  · exact wellKeyed_destroy h
  · rename_i hr
    exact hstart.resetStep (Session.resetStep_resetBackend hr)
  · rename_i hr
    exact hstart.resetStep (Session.resetStep_resetBackend hr)
  · rename_i hr
    have hd := hstart.resetStep (Session.resetStep_resetBackend hr)
    exact wellKeyed_destroy hd

theorem wellKeyed_stepped (h : WellKeyed c.session.control) (hs : Stepped env c e c') :
    WellKeyed c'.session.control := by
  cases hs with
  | connect => exact h.ended.of_eq rfl rfl rfl (Nat.le_refl _)
  | frontend _ ready next =>
    exact h.received (Session.received_processFrontendResponse ready next)
  | backend _ next => exact h.replied (Session.replied_processBackendResponse next)
  | @disconnect terminate cached =>
    have hd : ∀ b : Bool, WellKeyed (if b = true then c.session.unsetDoingExtendedQueryMessage
        else c.session).control := by
      intro b
      cases b with
      | false => exact h
      | true => exact h.of_eq rfl rfl rfl (Nat.le_refl _)
    unfold disconnect
    split
    · exact h
    · simp only
      split
      · exact hd terminate
      · exact wellKeyed_destroy (hd terminate)
  | reset => exact wellKeyed_reset h
  | abandon => exact wellKeyed_destroy h

/-- The list is well keyed in every reachable state. -/
theorem wellKeyed (h : Reachable env P c) : WellKeyed c.session.control := by
  refine h.invariant (I := fun c => WellKeyed c.session.control) ?_
    fun _ _ _ hi _ hs => wellKeyed_stepped hi hs
  exact ⟨List.nodup_nil, nofun, nofun, nofun, nofun,
    nofun, nofun⟩

end Child

end PgPool
