import PgPool.Control.Basic

/-!
# Replies and the control part

The list of sent messages as part of the control part, and what each reply does to it.  `Replied`
has one case for each outcome.
-/

namespace PgPool

open Keyed

namespace Control

variable (c : Control)

/-! ## The list of sent messages -/

/-- How many entries refer to a context. -/
def refCount (qc : QcId) : Nat := (c.messageList.filter fun m => m.queryContext == qc).length

/-- `pool_sent_message_destroy`. -/
def release (qc : QcId) : Control :=
  if c.refCount qc ≤ 1 then
    { c with
      queryContext := if c.queryContext = some qc then none else c.queryContext
      destroyed := fun q => if q = qc then c.destroyed q + 1 else c.destroyed q }
  else c

/-- `pool_get_sent_message`. -/
def find (kind : MsgKind) (name : String) : Option SentMessage :=
  lookup SentMessage.key (kind, name) c.messageList

/-- `pool_remove_sent_message`. -/
def removeMessage (kind : MsgKind) (name : String) : Control :=
  match c.find kind name with
  | none => c
  | some m =>
      (c.release m.queryContext).setMessageList
        (Keyed.remove SentMessage.key (kind, name) c.messageList)

def append (m : SentMessage) : Control := c.setMessageList (c.messageList ++ [m])

/-- `pool_add_sent_message`. -/
def addMessage (m : SentMessage) : Control :=
  match c.find m.kind m.name with
  | some _ => if m.name = "" then (c.removeMessage m.kind m.name).append m else c
  | none => c.append m

/-- Some messages are removed. -/
inductive Removals (c : Control) : Control → Prop
  | refl : Removals c c
  | remove {d : Control} (kind : MsgKind) (name : String) (rest : Removals c d) :
      Removals c (d.removeMessage kind name)

theorem Removals.trans {c d e : Control} (h : Removals c d) (h' : Removals d e) : Removals c e := by
  induction h' with
  | refl => exact h
  | remove kind name _ ih => exact .remove kind name ih

/-- What every removal preserves. -/
theorem Removals.invariant {I : Control → Prop} {c d : Control} (h : Removals c d)
    (preserved : ∀ c kind name, I c → I (c.removeMessage kind name)) (init : I c) : I d := by
  induction h with
  | refl => exact init
  | remove kind name _ ih => exact preserved _ kind name ih

/-! ## Replies -/

/-- The uncompleted message enters the list. -/
def complete : Control :=
  match c.uncompletedMessage with
  | none => c
  | some m => (c.addMessage m).setUncompleted none

/-- The uncompleted message is added and removed again. -/
def dropUncompleted : Control :=
  match c.uncompletedMessage with
  | none => c
  | some m => ((c.addMessage m).removeMessage m.kind m.name).setUncompleted none

/-- A reply that ends an extended query message. -/
def endExtended : Control := if c.doingExtendedQueryMessage then c.setInProgress false else c

/-- A completion that ends any message. -/
def endMessage : Control := c.setSuccess.setInProgress false

/-- After an error in the extended protocol all messages are ignored. -/
def endError : Control :=
  if c.doingExtendedQueryMessage then (c.setSuccess.setIgnore true).setInProgress false
  else c.setSuccess

/-- What a completed statement does to the list. -/
inductive Completed (c : Control) : Control → Prop
  | prepare {qc : QcId} (current : c.queryContext = some qc)
      (tag : (c.statement qc).2.tag = .prepareStmt) : Completed c c.complete
  | other {d : Control}
      (tag : ∀ qc, c.queryContext = some qc → (c.statement qc).2.tag ≠ .prepareStmt)
      (removals : Removals c d) : Completed c d

/-- What a reply does to the control part. -/
inductive Replied (c : Control) : Reply → Control → Prop
  | ignored {reply : Reply} (ignore : c.ignoreTillSync = true) : Replied c reply c
  | skipped {reply : Reply} : Replied c reply (c.setSkip false)
  | ready (read : c.ignoreTillSync = false) : Replied c .readyForQuery c.readyForQuery
  | parseComplete : Replied c .parseComplete c.complete.endMessage
  | bindComplete : Replied c .bindComplete c.complete.endMessage
  | closeComplete {m : SentMessage} (closing : c.uncompletedMessage = some m) :
      Replied c .closeComplete ((c.removeMessage m.kind m.name).setUncompleted none).endMessage
  | error {fatal : Bool} : Replied c (.errorResponse fatal) c.dropUncompleted.endError
  | command {tag : CommandTag} {effect : TxnEffect} {mismatch : Bool} {d : Control}
      (completed : Completed c d) :
      Replied c (.commandComplete tag effect mismatch) d.setSuccess.endExtended
  | ends {reply : Reply} (reply_eq : reply = .emptyQuery ∨ reply = .rowDescription ∨
      reply = .noData ∨ reply = .portalSuspended) : Replied c reply c.endExtended
  | copyIn {messages : List ForwardedMsg} : Replied c (.copyIn messages) c
  | other : Replied c .other c
  -- protocol V2 keeps no book of completions
  | v2 {reply : Reply} (reply_ne : reply ≠ .readyForQuery) : Replied c reply c

end Control

namespace Session

variable {env : Setup} {ans : Answers} {s t : Session}

theorem control_sentMessageDestroy (m : SentMessage) :
    (s.sentMessageDestroy m).control = s.control.release m.queryContext := by
  unfold sentMessageDestroy Control.release
  simp only [canQueryContextDestroy, decide_eq_true_eq]
  rw [show s.control.refCount m.queryContext =
    (s.messageList.filter fun m' => m'.queryContext == m.queryContext).length from rfl]
  split <;> rfl

theorem control_removeSentMessage (kind : MsgKind) (name : String) :
    (s.removeSentMessage kind name).1.control = s.control.removeMessage kind name := by
  unfold removeSentMessage Control.removeMessage
  rw [show s.control.find kind name = s.getSentMessage kind name from rfl]
  cases s.getSentMessage kind name with
  | none => rfl
  | some m =>
    simp only
    rw [control_setMessageList, control_sentMessageDestroy]
    rfl

theorem control_addSentMessage (m : SentMessage) :
    (s.addSentMessage m).control = s.control.addMessage m := by
  unfold addSentMessage Control.addMessage
  rw [show s.control.find m.kind m.name = s.getSentMessage m.kind m.name from rfl]
  cases hold : s.getSentMessage m.kind m.name with
  | none => rfl
  | some old =>
    have hkey : old.key = (m.kind, m.name) := Keyed.lookup_key hold
    have hkind : old.kind = m.kind := congrArg Prod.fst hkey
    have hname : old.name = m.name := congrArg Prod.snd hkey
    simp only
    split
    · rw [hkind, hname, ← control_removeSentMessage]
      rfl
    · rfl

theorem removals_removeSentMessagesLoop (kind : MsgKind) (fuel i : Nat) :
    Control.Removals s.control (removeSentMessagesLoop kind fuel i s).control := by
  induction fuel generalizing i s with
  | zero => exact .refl
  | succ fuel ih =>
    unfold removeSentMessagesLoop
    cases s.messageList[i]? with
    | none => exact .refl
    | some m =>
      simp only
      split
      · have hstep : Control.Removals s.control (s.removeSentMessage kind m.name).1.control := by
          rw [control_removeSentMessage]
          exact .remove kind m.name .refl
        split
        · rename_i u hu
          rw [hu] at hstep
          exact hstep.trans (ih i)
        · rename_i u hu
          rw [hu] at hstep
          exact hstep.trans (ih (i + 1))
      · exact ih (i + 1)

theorem removals_removeSentMessages (kind : MsgKind) :
    Control.Removals s.control (s.removeSentMessages kind).control :=
  removals_removeSentMessagesLoop kind _ 0

theorem removals_clearSentMessageLoop (fuel : Nat) :
    Control.Removals s.control (clearSentMessageLoop fuel s).control := by
  induction fuel generalizing s with
  | zero => exact .refl
  | succ fuel ih =>
    unfold clearSentMessageLoop
    cases s.messageList with
    | nil => exact .refl
    | cons m rest => exact (removals_removeSentMessages m.kind).trans ih

theorem removals_clearSentMessageList :
    Control.Removals s.control s.clearSentMessageList.control :=
  removals_clearSentMessageLoop _

/-! ## Completions -/

theorem control_setQueryState (qc : QcId) (state : QueryState) :
    (setQueryState env qc state s).control = s.control :=
  control_setContext rfl rfl

theorem control_completeMessage (state : QueryState) :
    (s.completeMessage env state).control = s.control.complete := by
  unfold completeMessage Control.complete
  rw [show s.control.uncompletedMessage = s.uncompletedMessage from rfl]
  cases s.uncompletedMessage with
  | none => rfl
  | some m =>
    simp only
    rw [control_setUncompletedMessage, control_setQueryState, control_addSentMessage, control_emit]

theorem control_completePrepare : (s.completePrepare env).control = s.control.complete := by
  unfold completePrepare Control.complete
  rw [show s.control.uncompletedMessage = s.uncompletedMessage from rfl]
  cases s.uncompletedMessage with
  | none => rfl
  | some m =>
    simp only
    rw [control_setUncompletedMessage, control_addSentMessage, control_emit]

theorem control_closeComplete (h : s.closeComplete = some t) :
    ∃ m, s.uncompletedMessage = some m ∧
      t.control = (s.control.removeMessage m.kind m.name).setUncompleted none := by
  unfold closeComplete at h
  cases hm : s.uncompletedMessage with
  | none => simp [hm] at h
  | some m =>
    simp only [hm, Option.some.injEq] at h
    exact ⟨m, rfl, by rw [← h, control_setUncompletedMessage, control_removeSentMessage]⟩

theorem control_dropUncompleted : s.dropUncompleted.control = s.control.dropUncompleted := by
  unfold dropUncompleted Control.dropUncompleted
  rw [show s.control.uncompletedMessage = s.uncompletedMessage from rfl]
  cases s.uncompletedMessage with
  | none => rfl
  | some m =>
    simp only
    rw [control_setUncompletedMessage, control_removeSentMessage, control_addSentMessage]

theorem removals_deallocate (name : Option String) :
    Control.Removals s.control (s.deallocate name).control := by
  cases name with
  | none => exact (removals_removeSentMessages .Q).trans (removals_removeSentMessages .P)
  | some name =>
    have h : (s.deallocate (some name)).control =
        (s.control.removeMessage .Q name).removeMessage .P name := by
      unfold deallocate
      simp only
      rw [control_removeSentMessage, control_removeSentMessage]
    rw [h]
    exact .remove .P name (.remove .Q name .refl)

theorem removals_discard (target : DiscardMode) :
    Control.Removals s.control (s.discard target).control := by
  cases target with
  | all => exact removals_clearSentMessageList
  | plans => exact (removals_removeSentMessages .Q).trans (removals_removeSentMessages .P)
  | temp => exact .refl

theorem completed_completeStatement {qc : QcId} (hqc : s.queryContext = some qc) :
    Control.Completed s.control (completeStatement env (s.contexts qc).parseTree s).control := by
  have hother : (s.contexts qc).parseTree.tag ≠ .prepareStmt → ∀ q, s.control.queryContext = some q →
      (s.control.statement q).2.tag ≠ .prepareStmt := by
    intro hne q hq
    rw [Option.some.inj (hq.symm.trans hqc)]
    exact hne
  cases hnode : (s.contexts qc).parseTree with
  | prepareStmt name query =>
    rw [completeStatement, control_completePrepare]
    refine .prepare hqc ?_
    change (s.contexts qc).parseTree.tag = _
    rw [hnode]
    rfl
  | deallocateStmt name => exact .other (hother (by simp [hnode, Node.tag])) (removals_deallocate name)
  | discardStmt target => exact .other (hother (by simp [hnode, Node.tag])) (removals_discard target)
  | plain t word =>
    exact .other (hother (hnode ▸ Node.tag_plain rfl)) .refl
  | value v =>
    refine .other (hother ?_) .refl
    rw [hnode]
    cases v <;> simp [Node.tag]
  | _ =>
    simp only [completeStatement]
    split <;> exact .other (hother (by simp [hnode, Node.tag])) .refl

theorem completed_commandComplete (effect : TxnEffect) (mismatch : Bool) :
    Control.Completed s.control (s.commandComplete env effect mismatch).control := by
  unfold commandComplete
  simp only
  rw [control_setMismatchNtuples]
  cases hqc : (s.emit (.tagged (s.validNodes env) effect)).queryContext with
  | none => exact .other (by rintro q hq; exact absurd (hq.symm.trans hqc) (by simp)) .refl
  | some qc => exact completed_completeStatement hqc

/-! ## Errors -/

@[simp] theorem control_raiseIntentionalErrorIfNeed :
    (s.raiseIntentionalErrorIfNeed env).control = s.control := by
  have hprim : (s.raiseOnPrimary env).control = s.control := by
    unfold raiseOnPrimary
    cases selectContext env s with
    | none => rfl
    | some qc =>
      simp only
      split
      · exact (control_emit _).trans (control_setMap _)
      · rfl
  have hrep : ∀ u : Session, (u.raiseOnReplicas env).control = u.control := by
    intro u
    unfold raiseOnReplicas
    cases selectContext env u with
    | none => rfl
    | some qc =>
      simp only
      split
      · exact (control_foldl_emit (fun _ i => .errorCommand i) _).trans (control_setMap _)
      · rfl
  exact (hrep _).trans hprim

theorem control_noteFailure : (noteFailure env s).control = s.control := by
  unfold noteFailure
  split <;> rfl

theorem control_endError : (endError env s).control = s.control.endError := by
  unfold endError Control.endError
  have hx : (noteFailure env s.setCommandSuccess).doingExtendedQueryMessage =
      s.control.doingExtendedQueryMessage :=
    congrArg Control.doingExtendedQueryMessage (control_noteFailure (s := s.setCommandSuccess))
  simp only [hx]
  split
  · rw [control_unsetQueryInProgress, control_setIgnoreTillSync, control_noteFailure]
    rfl
  · exact control_noteFailure

theorem control_errorResponse : (s.errorResponse env).control = s.control := by
  unfold errorResponse
  simp

theorem control_completedResponse (tag : CommandTag) (effect : TxnEffect) :
    (s.completedResponse env tag effect).control = s.control := by
  unfold completedResponse
  simp only
  split <;> rfl

theorem control_endExtended : s.endExtended.control = s.control.endExtended := by
  unfold endExtended Control.endExtended
  rw [show s.control.doingExtendedQueryMessage = s.doingExtendedQueryMessage from rfl]
  split <;> rfl

/-! ## `ProcessBackendResponse` -/

theorem replied_processReplyV3 {reply : Reply} (hi : s.ignoreTillSync = false)
    (h : processReplyV3 env ans reply s = some t) : Control.Replied s.control reply t.control := by
  cases reply with
  | readyForQuery =>
    rw [control_readyForQuery h]
    exact .ready hi
  | parseComplete =>
    cases h
    rw [endMessage, control_unsetQueryInProgress, control_setCommandSuccess, control_completeMessage]
    exact .parseComplete
  | bindComplete =>
    cases h
    rw [endMessage, control_unsetQueryInProgress, control_setCommandSuccess, control_completeMessage]
    exact .bindComplete
  | closeComplete =>
    obtain ⟨u, hu, rfl⟩ := Option.map_eq_some_iff.1 h
    obtain ⟨m, hm, hc⟩ := control_closeComplete hu
    rw [endMessage, control_unsetQueryInProgress, control_setCommandSuccess, hc]
    exact .closeComplete hm
  | errorResponse fatal =>
    obtain ⟨u, hu, rfl⟩ := Option.map_eq_some_iff.1 h
    unfold errorResponse3 at hu
    split at hu
    · cases hu
    · cases hu
      rw [control_endError, control_dropUncompleted, control_raiseIntentionalErrorIfNeed]
      exact .error
  | commandComplete tag effect mismatch =>
    cases h
    rw [control_endExtended, control_setCommandSuccess]
    exact .command (completed_commandComplete effect mismatch)
  | emptyQuery =>
    cases h
    rw [control_endExtended]
    exact .ends (Or.inl rfl)
  | rowDescription =>
    cases h
    rw [control_endExtended]
    exact .ends (Or.inr (Or.inl rfl))
  | noData =>
    cases h
    rw [control_endExtended]
    exact .ends (Or.inr (Or.inr (Or.inl rfl)))
  | portalSuspended =>
    cases h
    rw [control_endExtended]
    exact .ends (Or.inr (Or.inr (Or.inr rfl)))
  | copyIn messages =>
    cases h
    rw [control_foldl_emit (fun s m => .forwarded m (s.validNodes env))]
    exact .copyIn
  | other =>
    cases h
    exact .other

theorem replied_processReplyV2 {reply : Reply} (hi : s.ignoreTillSync = false)
    (h : processReplyV2 env ans reply s = some t) : Control.Replied s.control reply t.control := by
  cases reply with
  | readyForQuery =>
    rw [control_readyForQuery h]
    exact .ready hi
  | commandComplete tag effect mismatch =>
    cases h
    rw [control_completedResponse]
    exact .v2 (by simp)
  | errorResponse fatal =>
    cases h
    rw [control_noteFailure, control_errorResponse]
    exact .v2 (by simp)
  | copyIn messages =>
    cases h
    rw [control_foldl_emit (fun s m => .forwarded m (s.validNodes env))]
    exact .v2 (by simp)
  | emptyQuery | rowDescription | other =>
    cases h
    exact .v2 (by simp)
  | parseComplete | bindComplete | closeComplete | noData | portalSuspended => cases h

/-- What `ProcessBackendResponse` does to the control part. -/
theorem replied_processBackendResponse {reply : Reply}
    (h : processBackendResponse env ans reply s = some t) :
    Control.Replied s.control reply t.control := by
  unfold processBackendResponse at h
  split at h
  · rename_i hi
    cases h
    exact .ignored hi
  · rename_i hi
    rw [Bool.not_eq_true] at hi
    split at h
    · cases h
      exact .skipped
    · split at h
      · exact replied_processReplyV3 hi h
      · exact replied_processReplyV2 hi h

end Session

end PgPool
