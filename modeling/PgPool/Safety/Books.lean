import PgPool.Safety.Completions
import PgPool.Traffic.Order

/-!
# The steps of a session and the books

What each step adds to the history: a reply may complete the pending message, a message from the
frontend may route a new one, and everything else does not touch the books.
-/

namespace PgPool

/-- The action does not touch the books, and nothing is needed for it. -/
def Action.Plain (a : Action) : Prop := a.Silent ∧ a.Free

theorem Action.Internal.plain {a : Action} (h : a.Internal) : a.Plain := by
  cases a <;> first | exact ⟨trivial, fun _ => trivial⟩ | cases h

/-- The reply is one by which a pending message is completed. -/
def Control.Completes (c : Control) : Reply → Prop
  | .parseComplete | .bindComplete => True
  | .commandComplete _ _ _ => ∃ qc ∈ c.queryContext, (c.statement qc).2.tag = .prepareStmt
  | _ => False

namespace Session

variable {env : Setup} {ans : Answers} {s t u : Session} {m : SentMessage} {reply : Reply}

/-! ## Replies -/

/-- The pending message is completed, after actions that do not touch the books. -/
structure CompletesPending (env : Setup) (s t : Session) (m : SentMessage) : Prop where
  pending : s.uncompletedMessage = some m
  trace : ∃ pre, t.conn.trace = .completed m (s.validNodes env) :: pre ++ s.conn.trace ∧
    ∀ a ∈ pre, a.Plain

/-- What a reply adds to the history. -/
inductive Answered (env : Setup) (s t : Session) (reply : Reply) : Prop
  | plain (idle : Handled s → s.control.Completes reply → s.uncompletedMessage = none)
      (follows : Follows Action.Plain s t)
  | completes {m : SentMessage} (handled : Handled s) (completes : s.control.Completes reply)
      (step : CompletesPending env s t m)

theorem Quiet.plain (h : Quiet Action.Internal s t) : Follows Action.Plain s t :=
  h.toFollows.mono fun _ ha => ha.plain

theorem follows_plain {a : Action} (h : a.Plain) : Follows Action.Plain s (s.emit a) := .emit s h

/-- Any change of neither the history, nor the protocol, nor the reset context. -/
theorem follows_of_conn (conn : t.conn = s.conn) (reset : t.resetContext = s.resetContext) :
    Follows Action.Plain s t := .of_eq (by rw [conn]) reset (by rw [conn])

theorem follows_readyForQuery (h : readyForQuery env ans s = some t) :
    Follows Action.Plain s t :=
  (follows_plain (a := .ready (s.validNodes env)) ⟨trivial, fun _ => trivial⟩).trans
    (quiet_readyForQuery h).plain

theorem follows_raiseIntentionalErrorIfNeed :
    Follows Action.Plain s (s.raiseIntentionalErrorIfNeed env) := by
  have hprimary : Follows Action.Plain s (s.raiseOnPrimary env) := by
    unfold raiseOnPrimary
    split
    · exact .refl s
    · rename_i qc _
      split
      · have hmap : Follows Action.Plain s
            (s.setMap qc ((s.contexts qc).whereToSend.set env.primary)) := follows_of_conn rfl rfl
        exact hmap.trans (follows_plain ⟨trivial, fun _ => trivial⟩)
      · exact .refl s
  have hreplicas : ∀ u : Session, Follows Action.Plain u (u.raiseOnReplicas env) := by
    intro u
    unfold raiseOnReplicas
    split
    · exact .refl u
    · rename_i qc _
      split
      · have hmap : Follows Action.Plain u
            (u.setMap qc ((u.contexts qc).whereToSend.setall env)) := follows_of_conn rfl rfl
        refine hmap.trans (Quiet.toFollows ?_)
        exact quiet_foldl_emit (fun _ i => .errorCommand i) _
          fun _ _ => ⟨trivial, fun _ => trivial⟩
      · exact .refl u
  exact hprimary.trans (hreplicas _)

theorem follows_copyIn (messages : List ForwardedMsg) : Follows Action.Plain s
    (messages.foldl (fun s m => s.emit (.forwarded m (s.validNodes env))) s) :=
  (quiet_foldl_emit (fun s m => .forwarded m (s.validNodes env)) messages
    fun _ _ => ⟨trivial, fun _ => trivial⟩).toFollows

theorem conn_endExtended :
    s.endExtended.conn = s.conn ∧ s.endExtended.resetContext = s.resetContext := by
  unfold endExtended
  split <;> exact ⟨rfl, rfl⟩

theorem follows_noteFailure : Follows Action.Plain s (noteFailure env s) := by
  unfold noteFailure
  split
  · exact follows_of_conn rfl rfl
  · exact .refl s

theorem follows_endError : Follows Action.Plain s (endError env s) := by
  have hsuccess : Follows Action.Plain s s.setCommandSuccess := follows_of_conn rfl rfl
  have hnote : Follows Action.Plain s (noteFailure env s.setCommandSuccess) :=
    hsuccess.trans follows_noteFailure
  unfold endError
  simp only
  split
  · exact hnote.trans (follows_of_conn rfl rfl)
  · exact hnote

theorem follows_removeSentMessage (kind : MsgKind) (name : String) :
    Follows Action.Plain s (s.removeSentMessage kind name).1 :=
  (quiet_removeSentMessage kind name).toFollows

theorem follows_dropUncompleted : Follows Action.Plain s s.dropUncompleted := by
  unfold dropUncompleted
  split
  · exact .refl s
  · rename_i m _
    have hadd : Follows Action.Plain s (s.addSentMessage m) := (quiet_addSentMessage m).toFollows
    exact (hadd.trans (follows_removeSentMessage _ _)).trans (follows_of_conn rfl rfl)

/-- Only a PREPARE completes a message when its command is complete. -/
theorem follows_completeStatement {node : Node} (h : node.tag ≠ .prepareStmt) :
    Follows Action.Plain s (completeStatement env node s) := by
  have hremove : ∀ (u : Session) (kind : MsgKind),
      Follows Action.Plain u (u.removeSentMessages kind) :=
    fun u kind => (quiet_removeSentMessages kind).toFollows
  unfold completeStatement
  split
  · exact absurd rfl h
  · rename_i name
    cases name with
    | none => exact (hremove _ _).trans (hremove _ _)
    | some name => exact (follows_removeSentMessage .Q name).trans (follows_removeSentMessage .P name)
  · rename_i target
    cases target with
    | plans => exact (hremove _ _).trans (hremove _ _)
    | all => exact quiet_clearSentMessageList.toFollows
    | temp => exact .refl s
  · split
    · exact .of_eq rfl rfl rfl
    · exact .refl s

/-- The pending message is completed and goes to the list. -/
theorem trace_addCompleted (m : SentMessage) (nodes : List NodeId) :
    ((s.emit (.completed m nodes)).addSentMessage m).conn.trace =
      .completed m nodes :: s.conn.trace := by
  obtain ⟨-, -, new, htrace, hnew⟩ :=
    (quiet_addSentMessage (P := fun _ => False) (s := s.emit (.completed m nodes)) m).toFollows
  have hnil : new = [] := List.eq_nil_iff_forall_not_mem.2 hnew
  rw [htrace, hnil]
  rfl

theorem answered_completeMessage (handled : Handled s) (hc : s.control.Completes reply)
    (state : QueryState) : Answered env s (s.completeMessage env state).endMessage reply := by
  unfold completeMessage
  split
  · rename_i hnone
    exact .plain (fun _ _ => hnone) (follows_of_conn rfl rfl)
  · rename_i m hm
    refine .completes handled hc ⟨hm, [], ?_, by simp⟩
    exact trace_addCompleted m (s.validNodes env)

theorem answered_commandComplete (handled : Handled s) (tag : CommandTag) (effect : TxnEffect)
    (mismatch : Bool) :
    Answered env s (s.commandComplete env effect mismatch).setCommandSuccess.endExtended
      (.commandComplete tag effect mismatch) := by
  have htag : Follows Action.Plain s (s.emit (.tagged (s.validNodes env) effect)) :=
    follows_plain ⟨trivial, fun _ => trivial⟩
  have hconn : ∀ (v : Session) (b : Bool),
      (v.setMismatchNtuples b).setCommandSuccess.endExtended.conn = v.conn ∧
        (v.setMismatchNtuples b).setCommandSuccess.endExtended.resetContext = v.resetContext :=
    fun v b => (v.setMismatchNtuples b).setCommandSuccess.conn_endExtended
  have hend : ∀ (v : Session) (b : Bool),
      Follows Action.Plain v (v.setMismatchNtuples b).setCommandSuccess.endExtended :=
    fun v b => follows_of_conn (hconn v b).1 (hconn v b).2
  unfold commandComplete
  simp only
  split
  · rename_i hnone
    refine .plain (fun _ hc => ?_) (htag.trans (hend _ _))
    obtain ⟨qc, hqc, -⟩ := hc
    exact absurd (hqc.symm.trans hnone) nofun
  · rename_i qc hqc
    by_cases hprep : ((s.emit (.tagged (s.validNodes env) effect)).contexts qc).parseTree.tag =
        .prepareStmt
    · have hcompletes : s.control.Completes (.commandComplete tag effect mismatch) := ⟨qc, hqc, hprep⟩
      generalize hnode : ((s.emit (.tagged (s.validNodes env) effect)).contexts qc).parseTree = node
        at hprep
      cases node with
      | prepareStmt name query =>
        simp only [completeStatement]
        unfold completePrepare
        split
        · rename_i hnone
          exact .plain (fun _ _ => hnone) (htag.trans (hend _ _))
        · rename_i m hm
          refine .completes handled hcompletes ⟨hm, [.tagged (s.validNodes env) effect], ?_, ?_⟩
          · rw [(hconn _ _).1]
            exact trace_addCompleted (s := s.emit (.tagged (s.validNodes env) effect)) m
              (s.validNodes env)
          · intro a ha
            rw [List.mem_singleton.1 ha]
            exact ⟨trivial, fun _ => trivial⟩
      | plain t word => exact absurd hprep (Node.tag_plain rfl)
      | value v => cases v <;> cases hprep
      | _ => cases hprep
    · refine .plain (fun _ hc => ?_)
        ((htag.trans (follows_completeStatement hprep)).trans (hend _ _))
      obtain ⟨qc', hqc', htree⟩ := hc
      cases hqc'.symm.trans hqc
      exact absurd htree hprep

theorem answered_processReplyV3 (handled : Handled s) (h : processReplyV3 env ans reply s = some t) :
    Answered env s t reply := by
  unfold processReplyV3 at h
  cases reply with
  | readyForQuery => exact .plain nofun (follows_readyForQuery h)
  | parseComplete =>
    cases h
    exact answered_completeMessage handled (by trivial) _
  | bindComplete =>
    cases h
    exact answered_completeMessage handled (by trivial) _
  | closeComplete =>
    obtain ⟨u, hu, rfl⟩ := Option.map_eq_some_iff.1 h
    unfold closeComplete at hu
    split at hu
    · cases hu
    · rename_i m _
      cases hu
      exact .plain nofun ((follows_removeSentMessage m.kind m.name).trans (follows_of_conn rfl rfl))
  | errorResponse fatal =>
    obtain ⟨u, hu, rfl⟩ := Option.map_eq_some_iff.1 h
    unfold errorResponse3 at hu
    split at hu
    · cases hu
    · cases hu
      exact .plain nofun ((follows_raiseIntentionalErrorIfNeed.trans follows_dropUncompleted).trans
        follows_endError)
  | commandComplete tag effect mismatch =>
    cases h
    exact answered_commandComplete handled tag effect mismatch
  | copyIn messages =>
    cases h
    exact .plain nofun (follows_copyIn messages)
  | other =>
    cases h
    exact .plain nofun (.refl s)
  | _ =>
    cases h
    exact .plain nofun (follows_of_conn s.conn_endExtended.1 s.conn_endExtended.2)

theorem follows_processReplyV2 (h : processReplyV2 env ans reply s = some t) :
    Follows Action.Plain s t := by
  unfold processReplyV2 at h
  cases reply with
  | readyForQuery => exact follows_readyForQuery h
  | commandComplete tag effect mismatch =>
    cases h
    have htag : Follows Action.Plain s (s.emit (.tagged (s.validNodes env) effect)) :=
      follows_plain ⟨trivial, fun _ => trivial⟩
    unfold completedResponse
    simp only
    split
    · exact htag
    · exact htag.trans (.of_eq rfl rfl rfl)
  | errorResponse fatal =>
    cases h
    have hstate : Follows Action.Plain (s.raiseIntentionalErrorIfNeed env) (s.errorResponse env) :=
      .of_eq rfl rfl rfl
    exact (follows_raiseIntentionalErrorIfNeed.trans hstate).trans follows_noteFailure
  | copyIn messages =>
    cases h
    exact follows_copyIn messages
  | emptyQuery | rowDescription | other =>
    cases h
    exact .refl s
  | _ => cases h

/-- **Replies** complete the pending message, or leave the books alone. -/
theorem answered_processBackendResponse (h : processBackendResponse env ans reply s = some t) :
    Answered env s t reply := by
  unfold processBackendResponse at h
  split at h
  · rename_i hread
    cases h
    exact .plain (fun hs _ => absurd hread (by simp [hs.reads])) (.refl s)
  · rename_i hread
    split at h
    · rename_i hskip
      cases h
      exact .plain (fun hs _ => absurd hskip (by simp [hs.noSkip])) (follows_of_conn rfl rfl)
    · rename_i hskip
      split at h
      · rename_i hmajor
        exact answered_processReplyV3 ⟨⟨by simpa using hread, by simpa using hskip⟩, hmajor⟩ h
      · rename_i hmajor
        exact .plain (fun hs _ => absurd (hs.major.symm.trans hmajor) nofun)
          (follows_processReplyV2 h)

/-- A reply that is not handled, or only by the functions for protocol V2, leaves the list alone. -/
theorem list_of_not_handled (hs : ¬ Handled s) (h : processBackendResponse env ans reply s = some t) :
    t.messageList = s.messageList ∧ t.uncompletedMessage = s.uncompletedMessage := by
  have hsame : ∀ {u : Session}, u.control = s.control →
      u.messageList = s.messageList ∧ u.uncompletedMessage = s.uncompletedMessage :=
    fun hu => ⟨congrArg Control.messageList hu, congrArg Control.uncompletedMessage hu⟩
  unfold processBackendResponse at h
  split at h
  · cases h
    exact ⟨rfl, rfl⟩
  · rename_i hread
    split at h
    · cases h
      exact ⟨rfl, rfl⟩
    · rename_i hskip
      split at h
      · rename_i hmajor
        exact absurd ⟨⟨by simpa using hread, by simpa using hskip⟩, hmajor⟩ hs
      · unfold processReplyV2 at h
        cases reply with
        | readyForQuery =>
          have hready := control_readyForQuery h
          have hkept : s.control.readyForQuery.messageList = s.messageList ∧
              s.control.readyForQuery.uncompletedMessage = s.uncompletedMessage := by
            unfold Control.readyForQuery
            split
            · exact ⟨rfl, rfl⟩
            · split
              · exact ⟨rfl, rfl⟩
              · split <;> exact ⟨rfl, rfl⟩
          exact ⟨(congrArg Control.messageList hready).trans hkept.1,
            (congrArg Control.uncompletedMessage hready).trans hkept.2⟩
        | commandComplete tag effect mismatch =>
          cases h
          exact hsame (control_completedResponse tag effect)
        | errorResponse fatal =>
          cases h
          exact hsame (control_noteFailure.trans control_errorResponse)
        | copyIn messages =>
          cases h
          exact hsame (control_foldl_emit (fun s m => .forwarded m (s.validNodes env)) messages)
        | emptyQuery | rowDescription | other =>
          cases h
          exact ⟨rfl, rfl⟩
        | _ => cases h

end Session

namespace Control

variable {c d : Control} {m : SentMessage} {reply : Reply}

/-- A state with no other entries and no other pending message. -/
structure Less (c d : Control) : Prop where
  list : ∀ m ∈ d.messageList, m ∈ c.messageList
  pending : ∀ m, d.uncompletedMessage = some m → c.uncompletedMessage = some m

theorem Less.refl (c : Control) : Less c c := ⟨fun _ h => h, fun _ h => h⟩

theorem Less.of_eq (list : d.messageList = c.messageList)
    (pending : d.uncompletedMessage = c.uncompletedMessage) : Less c d := by
  refine ⟨fun m hm => list ▸ hm, fun m hm => pending.symm.trans hm⟩

theorem less_removeMessage (kind : MsgKind) (name : String) : Less c (c.removeMessage kind name) := by
  refine ⟨fun m hm => ?_, fun m hm => ?_⟩
  · rw [messageList_removeMessage] at hm
    exact Keyed.mem_of_mem_remove hm
  · rwa [uncompletedMessage_removeMessage] at hm

theorem Less.trans {e : Control} (h : Less c d) (h' : Less d e) : Less c e :=
  ⟨fun m hm => h.list m (h'.list m hm), fun m hm => h.pending m (h'.pending m hm)⟩

theorem less_removals (hr : Removals c d) : Less c d :=
  hr.invariant (fun _ kind name h => h.trans (less_removeMessage kind name)) (.refl c)

theorem less_endExtended : Less c c.endExtended := by
  unfold endExtended
  split <;> exact .of_eq rfl rfl

theorem less_dropUncompleted (h : c.WellKeyed) : Less c c.dropUncompleted := by
  unfold dropUncompleted
  split
  · exact .refl c
  · rename_i m hm
    refine ⟨fun m' hm' => ?_, fun m' hm' => by cases hm'⟩
    change m' ∈ ((c.addMessage m).removeMessage m.kind m.name).messageList at hm'
    rw [messageList_removeMessage] at hm'
    have hkey : m'.key ≠ m.key := ((h.addMessage hm).distinct.mem_remove.1 hm').2
    have hadd := Keyed.mem_of_mem_remove hm'
    rw [messageList_addMessage] at hadd
    split at hadd
    · exact hadd
    · obtain hold | hnew := List.mem_append.1 hadd
      · exact Keyed.mem_of_mem_remove hold
      · exact absurd (congrArg SentMessage.key (List.mem_singleton.1 hnew)) hkey

/-- What a reply that completes nothing leaves of the list. -/
theorem less_replied (hk : c.WellKeyed) (hr : Replied c reply d)
    (hidle : c.Completes reply → c.uncompletedMessage = none) : Less c d := by
  have hcomplete : c.uncompletedMessage = none → c.complete = c := by
    intro hnone
    unfold complete
    rw [hnone]
  cases hr with
  | ready =>
    unfold readyForQuery
    split
    · exact .of_eq rfl rfl
    · split
      · exact .of_eq rfl rfl
      · split <;> exact .of_eq rfl rfl
  | parseComplete =>
    rw [hcomplete (hidle (by trivial))]
    exact .of_eq rfl rfl
  | bindComplete =>
    rw [hcomplete (hidle (by trivial))]
    exact .of_eq rfl rfl
  | closeComplete closing =>
    refine (less_removeMessage _ _).trans ⟨fun _ h => h, fun m hm => ?_⟩
    cases hm
  | error =>
    refine (less_dropUncompleted hk).trans ?_
    unfold endError
    split <;> exact .of_eq rfl rfl
  | command completed =>
    have hsuccess : ∀ e : Control, Less e e.setSuccess := fun _ => .of_eq rfl rfl
    cases completed with
    | @prepare qc current htag =>
      rw [hcomplete (hidle ⟨qc, current, htag⟩)]
      exact (hsuccess _).trans less_endExtended
    | other htag removals =>
      exact ((less_removals removals).trans (hsuccess _)).trans less_endExtended
  | ends => exact less_endExtended
  | _ => exact .of_eq rfl rfl

end Control

namespace Session

variable {env : Setup} {ans : Answers} {s t : Session} {m : SentMessage} {reply : Reply}

/-- The books of the session are settled. -/
def Booked (env : Setup) (s : Session) : Prop :=
  Settled env s.conn.trace s.messageList s.uncompletedMessage fun q => (s.contexts q).whereToSend

/-- A completion that is read is that of the pending message, and no other entry of the list has its
name. -/
structure AnswersPending (s : Session) (m : SentMessage) : Prop where
  current : ∀ qc ∈ s.queryContext, qc = m.queryContext
  untaken : m.name = "" ∨ ∀ old ∈ s.getSentMessage m.kind m.name, old = m

instance (s : Session) (m : SentMessage) : Decidable (s.AnswersPending m) :=
  decidable_of_iff ((∀ qc ∈ s.queryContext, qc = m.queryContext) ∧
    (m.name = "" ∨ ∀ old ∈ s.getSentMessage m.kind m.name, old = m))
    ⟨fun h => ⟨h.1, h.2⟩, fun h => ⟨h.current, h.untaken⟩⟩

/-- A completion puts the pending message into the list. -/
theorem list_of_completes (hs : Handled s) (hc : s.control.Completes reply)
    (hm : s.uncompletedMessage = some m) (h : processBackendResponse env ans reply s = some t) :
    t.messageList = (s.control.addMessage m).messageList ∧ t.uncompletedMessage = none := by
  have hcomplete : s.control.complete = (s.control.addMessage m).setUncompleted none := by
    unfold Control.complete
    rw [show s.control.uncompletedMessage = some m from hm]
  have hend : ∀ {u : Session}, u.control = s.control.complete →
      u.messageList = (s.control.addMessage m).messageList ∧ u.uncompletedMessage = none := by
    intro u hu
    rw [hcomplete] at hu
    exact ⟨congrArg Control.messageList hu, congrArg Control.uncompletedMessage hu⟩
  rw [processReplyV3_of_handled hs] at h
  unfold processReplyV3 at h
  cases reply with
  | parseComplete =>
    cases h
    exact hend (u := s.completeMessage env .parseComplete) (control_completeMessage _)
  | bindComplete =>
    cases h
    exact hend (u := s.completeMessage env .bindComplete) (control_completeMessage _)
  | commandComplete tag effect mismatch =>
    cases h
    have hcontrol : (s.commandComplete env effect mismatch).control = s.control.complete := by
      have hcompleted : Control.Completed s.control
          (s.commandComplete env effect mismatch).control := completed_commandComplete _ _
      generalize (s.commandComplete env effect mismatch).control = d at hcompleted
      cases hcompleted with
      | prepare => rfl
      | other htag =>
        obtain ⟨qc, hqc, htree⟩ := hc
        exact absurd htree (htag qc hqc)
    have hlist : ∀ u : Session, u.endExtended.messageList = u.messageList ∧
        u.endExtended.uncompletedMessage = u.uncompletedMessage := by
      intro u
      unfold endExtended
      split <;> exact ⟨rfl, rfl⟩
    obtain ⟨hl, hu⟩ := hlist (s.commandComplete env effect mismatch).setCommandSuccess
    obtain ⟨hl', hu'⟩ := hend hcontrol
    exact ⟨hl.trans hl', hu.trans hu'⟩
  | _ => cases hc

/-- The entries of the list once a message has been added whose name was not taken. -/
theorem mem_addMessage {m' : SentMessage} (hk : s.control.WellKeyed)
    (huntaken : m.name = "" ∨ ∀ old ∈ s.getSentMessage m.kind m.name, old = m)
    (hm' : m' ∈ (s.control.addMessage m).messageList) :
    m' = m ∨ m' ∈ s.messageList ∧ m'.key ≠ m.key := by
  rw [Control.messageList_addMessage] at hm'
  split at hm'
  · rename_i htaken
    obtain ⟨hfind, hname⟩ := htaken
    obtain ⟨old, hold⟩ := Option.ne_none_iff_exists'.1 hfind
    have hsame : old = m := huntaken.resolve_left hname old hold
    have hmem : m ∈ s.control.messageList := hsame ▸ Keyed.lookup_mem hold
    by_cases hkey : m'.key = m.key
    · exact Or.inl (hk.distinct.eq_of_key hm' hmem hkey)
    · exact Or.inr ⟨hm', hkey⟩
  · obtain hold | hnew := List.mem_append.1 hm'
    · obtain ⟨hmem, hkey⟩ := hk.distinct.mem_remove.1 hold
      exact Or.inr ⟨hmem, hkey⟩
    · exact Or.inl (List.mem_singleton.1 hnew)

/-- The nodes that are read have the map of the query to which the reply belongs. -/
theorem mem_validNodes_of_current {qc : QcId} {i : NodeId} (hraw : env.rawMode = false)
    (hcurrent : ∀ q ∈ s.queryContext, q = qc) (hi : i < env.numBackends)
    (hup : env.isMyUp i = true) (hmap : (s.contexts qc).whereToSend i = true) :
    i ∈ s.validNodes env := by
  refine mem_validNodes.2 ⟨hi, ?_⟩
  simp only [validBackend, isNodeToBeSentInCurrentQuery, hraw, hup, Bool.false_and, Bool.false_or,
    Bool.and_true, Bool.false_eq_true, if_false]
  split
  · rename_i q _ hq
    rw [hcurrent q hq]
    exact hmap
  · rfl

/-- **Replies** keep the books settled. -/
theorem booked_reply (hraw : env.rawMode = false) (hk : s.control.WellKeyed) (hb : s.Booked env)
    (hans : Handled s → s.control.Completes reply → ∀ m ∈ s.uncompletedMessage, s.AnswersPending m)
    (h : processBackendResponse env ans reply s = some t) : t.Booked env := by
  have hwidens := widens_processBackendResponse h
  cases answered_processBackendResponse h with
  | plain idle follows =>
    have hless : Control.Less s.control t.control := by
      by_cases hs : Handled s
      · exact Control.less_replied hk (replied_processBackendResponse h) (idle hs)
      · obtain ⟨hlist, hpending⟩ := list_of_not_handled hs h
        exact .of_eq hlist hpending
    obtain ⟨-, -, new, htrace, hnew⟩ := follows
    unfold Booked
    rw [htrace]
    refine Settled.silent hb (fun a ha => (hnew a ha).1) hless.list fun m hm => ?_
    exact Or.inr ⟨hless.pending m hm, (hwidens.contexts m.queryContext).map⟩
  | @completes m handled completes step =>
    obtain ⟨hm, pre, htrace, hpre⟩ := step
    obtain ⟨hlist, hnone⟩ := list_of_completes handled completes hm h
    have hanswers := hans handled completes m hm
    have hstart : Settled env (pre ++ s.conn.trace) s.messageList (some m)
        fun q => (s.contexts q).whereToSend :=
      Settled.silent hb (fun a ha => (hpre a ha).1) (fun _ hm => hm) fun m' hm' =>
        Or.inr ⟨hm.trans hm', fun _ hi => hi⟩
    unfold Booked
    rw [htrace, hlist, hnone]
    refine hstart.completes (fun i hi hup hmap => ?_) fun m' hm' => ?_
    · exact mem_validNodes_of_current hraw hanswers.current hi hup hmap
    · exact mem_addMessage hk hanswers.untaken hm'

/-- Replies send nothing that has to wait for something else. -/
theorem inOrder_reply (horder : InOrder s.conn.trace)
    (h : processBackendResponse env ans reply s = some t) : InOrder t.conn.trace := by
  cases answered_processBackendResponse h with
  | plain idle follows =>
    obtain ⟨-, -, new, htrace, hnew⟩ := follows
    rw [htrace]
    exact horder.append_free fun a ha => (hnew a ha).2
  | completes handled completes step =>
    obtain ⟨-, pre, htrace, hpre⟩ := step
    rw [htrace]
    exact ⟨trivial, horder.append_free fun a ha => (hpre a ha).2⟩

end Session

end PgPool
