import PgPool.Memory.Owned

/-!
# A child makes these calls only

Every step of a child is a run of the calls of `Memory/Heap.lean`: what the run does to the
references is what the step does to the control part of the session.
-/

namespace PgPool

open Keyed Transition

namespace Heap

variable {h : Heap} {c d e : Control} {m u : SentMessage} {kind : MsgKind} {name : String} {qc : QcId}

theorem control_removeMessage (kind : MsgKind) (name : String) :
    (h.removeMessage kind name).control = h.control.removeMessage kind name := by
  unfold Heap.removeMessage
  cases hf : h.control.find kind name with
  | none =>
    unfold Control.removeMessage
    rw [hf]
  | some m => rfl

theorem control_addMessage (u : SentMessage) :
    (h.addMessage u).control = h.control.addMessage u := by
  unfold Heap.addMessage Control.addMessage
  cases h.control.find u.kind u.name with
  | none => rfl
  | some old =>
    simp only
    split
    · exact congrArg (fun c => Control.append c u) (control_removeMessage u.kind u.name)
    · rfl

theorem serving_removeMessage (kind : MsgKind) (name : String) :
    (h.removeMessage kind name).serving = h.serving := by
  unfold Heap.removeMessage
  split <;> rfl

theorem serving_addMessage (u : SentMessage) : (h.addMessage u).serving = h.serving := by
  unfold Heap.addMessage
  split
  · split
    · exact serving_removeMessage _ _
    · rfl
  · rfl

/-- In a session, calls lead from the one control part to the other. -/
def Makes (c d : Control) : Prop :=
  ∀ h : Heap, h.serving = true → h.control = c →
    ∃ h', Run step Any h h' ∧ h'.serving = true ∧ h'.control = d

theorem Makes.refl : Makes c c := fun h hs hc => ⟨h, .refl, hs, hc⟩

theorem Makes.trans (h : Makes c d) (h' : Makes d e) : Makes c e := by
  intro x hs hc
  obtain ⟨y, hxy, hys, hyd⟩ := h x hs hc
  obtain ⟨z, hyz, hzs, hze⟩ := h' y hys hyd
  exact ⟨z, hxy.trans hyz, hzs, hze⟩

/-- A single call. -/
theorem Makes.of_call (call : Call) (next : ∀ h : Heap, h.control = c →
    ∃ h', h.call call = some h' ∧ h'.serving = h.serving ∧ h'.control = d) : Makes c d := by
  intro h hs hc
  obtain ⟨h', hcall, hserving, hd⟩ := next h hc
  refine ⟨h', .step .refl call trivial ?_, hserving.trans hs, hd⟩
  unfold Heap.step
  rw [if_pos hs, hcall]

/-- Only flags change. -/
theorem Makes.flags (hd : d = { c with
    inProgress := d.inProgress
    doingExtendedQueryMessage := d.doingExtendedQueryMessage
    commandSuccess := d.commandSuccess
    skipReadingFromBackends := d.skipReadingFromBackends
    ignoreTillSync := d.ignoreTillSync }) : Makes c d := by
  refine .of_call (.flags d.inProgress d.doingExtendedQueryMessage d.commandSuccess
    d.skipReadingFromBackends d.ignoreTillSync) fun h hc => ⟨_, rfl, rfl, ?_⟩
  rw [hd, ← hc]
  rfl

theorem Makes.startQuery (sql : String) (node : Node) : Makes c (c.startQuery sql node) := by
  refine .of_call (.startQuery sql node) fun h hc => ⟨_, rfl, rfl, ?_⟩
  rw [← hc]
  rfl

theorem Makes.attempt (hid : m.id = c.nextMessage) (hqc : m.queryContext < c.nextContext) :
    Makes c (c.attempt m) := by
  refine .of_call (.createMessage m 0) fun h hc => ⟨h.createMessage m 0, ?_, rfl, ?_⟩
  · exact if_pos ⟨hc ▸ hid, hc ▸ hqc⟩
  · rw [← hc]
    rfl

theorem Makes.setCurrent (hm : m ∈ c.messageList) : Makes c (c.setCurrent m.queryContext) := by
  refine .of_call (.setCurrent m) fun h hc => ⟨_, if_pos (hc ▸ hm), rfl, ?_⟩
  rw [← hc]
  rfl

theorem Makes.close (hm : m ∈ c.messageList) : Makes c (c.setUncompleted (some m)) := by
  refine .of_call (.close m) fun h hc => ⟨_, if_pos (hc ▸ hm), rfl, ?_⟩
  rw [← hc]
  rfl

theorem Makes.forget : Makes c (c.setUncompleted none) := by
  refine .of_call .forget fun h hc => ⟨_, rfl, rfl, ?_⟩
  rw [← hc]
  rfl

theorem Makes.removeMessage (kind : MsgKind) (name : String) :
    Makes c (c.removeMessage kind name) := by
  refine .of_call (.removeMessage kind name) fun h hc =>
    ⟨_, rfl, serving_removeMessage kind name, ?_⟩
  rw [← hc]
  exact control_removeMessage kind name

theorem Makes.addMessage (hu : c.uncompletedMessage = some u) : Makes c (c.addMessage u) := by
  refine .of_call .addMessage fun h hc => ⟨h.addMessage u, ?_, serving_addMessage u, ?_⟩
  · unfold Heap.call
    rw [hc, hu]
  · rw [← hc]
    exact control_addMessage u

theorem Makes.destroyQuery (hq : c.queryContext = some qc) : Makes c (c.queryContextDestroy qc) := by
  refine .of_call .destroyQuery fun h hc => ⟨h.destroyQuery, rfl, ?_, ?_⟩
  · unfold Heap.destroyQuery
    split <;> rfl
  · unfold Heap.destroyQuery
    rw [hc, hq]

theorem Makes.removals (hr : Control.Removals c d) : Makes c d := by
  induction hr with
  | refl => exact .refl
  | remove kind name _ ih => exact ih.trans (.removeMessage kind name)

/-! ## Replies -/

theorem Makes.complete : Makes c c.complete := by
  unfold Control.complete
  cases hu : c.uncompletedMessage with
  | none => exact .refl
  | some u => exact (Makes.addMessage hu).trans .forget

theorem Makes.dropUncompleted : Makes c c.dropUncompleted := by
  unfold Control.dropUncompleted
  cases hu : c.uncompletedMessage with
  | none => exact .refl
  | some u => exact ((Makes.addMessage hu).trans (.removeMessage u.kind u.name)).trans .forget

theorem Makes.readyForQuery : Makes c c.readyForQuery := by
  have hend : Makes c c.endQuery := .flags rfl
  unfold Control.readyForQuery
  split
  · exact hend
  · split
    · exact hend
    · rename_i qc hq
      split
      · exact hend
      · exact hend.trans (.destroyQuery (show c.endQuery.queryContext = some qc from hq))

theorem Makes.endExtended : Makes c c.endExtended := by
  unfold Control.endExtended
  split
  · exact .flags rfl
  · exact .refl

theorem Makes.completed (hc : Control.Completed c d) : Makes c d := by
  cases hc with
  | prepare => exact .complete
  | other _ removals => exact .removals removals

/-- What a reply does to the references is done by calls. -/
theorem Makes.replied {reply : Reply} (hr : Control.Replied c reply d) : Makes c d := by
  cases hr with
  | ignored | copyIn | other | v2 => exact .refl
  | skipped => exact .flags rfl
  | ready => exact .readyForQuery
  | parseComplete | bindComplete => exact Makes.complete.trans (.flags rfl)
  | closeComplete => exact ((Makes.removeMessage _ _).trans .forget).trans (.flags rfl)
  | error =>
    refine Makes.dropUncompleted.trans ?_
    unfold Control.endError
    split
    · exact .flags rfl
    · exact .flags rfl
  | command completed =>
    exact ((Makes.completed completed).trans (.flags rfl)).trans .endExtended
  | ends => exact .endExtended

/-! ## Messages from the frontend -/

theorem Makes.answerQuery (sql : String) (node : Node) (skip : Bool) :
    Makes c (c.answerQuery sql node skip) :=
  ((Makes.startQuery sql node).trans (.destroyQuery rfl)).trans (.flags rfl)

theorem Makes.attemptNew (sql : String) (node : Node) (hid : m.id = c.nextMessage)
    (hqc : m.queryContext = c.nextContext) : Makes c ((c.startQuery sql node).attempt m) := by
  refine (Makes.startQuery sql node).trans (.attempt hid ?_)
  rw [hqc]
  exact Nat.lt_succ_self _

theorem Makes.simpleQuery (sql : String) (node : Node) : Makes c (c.simpleQuery sql node) := by
  unfold Control.simpleQuery
  split
  · exact .attemptNew sql _ rfl rfl
  · exact .startQuery sql node

/-- What a message does to the references is done by calls. -/
theorem Makes.received {env : Setup} {msg : FrontendMsg} (hk : Control.WellKeyed c)
    (hr : Received env c msg d) : Makes c d := by
  have hstart : Makes c c.startExtended := .flags rfl
  cases hr with
  | ignored => exact .refl
  | answered text node skip => exact (Makes.flags rfl).trans (.answerQuery text node skip)
  | query => exact (Makes.flags rfl).trans (.simpleQuery _ _)
  | parse new => exact (Makes.flags rfl).trans (.attemptNew _ _ new.id new.queryContext)
  | @bind _ _ _ pm _ new =>
    have hqc : _ < c.startExtended.nextContext := new.queryContext ▸ hk.allocated pm new.found
    exact (hstart.trans (.attempt new.id hqc)).trans (.setCurrent new.found)
  | describe found | execute found =>
    exact hstart.trans (.setCurrent found)
  | @close _ _ m found =>
    have hplain : Makes c ((c.setExtended false).setInProgress true) := .flags rfl
    exact (hplain.trans (.close found)).trans (.setCurrent found)
  | sync | forward => exact .flags rfl
  | functionCall => exact (Makes.flags rfl).trans (.startQuery _ _)

/-! ## Resets and whole steps -/

theorem Makes.queried {env : Setup} {sql : String} (hq : Control.Queried env c sql d) :
    Makes c d := by
  cases hq with
  | answered text node skip => exact .answerQuery text node skip
  | sent => exact .simpleQuery _ _

theorem Makes.resetStep {env : Setup} {result : Session.ResetResult}
    (hr : Control.ResetStep env c result d) : Makes c d := by
  cases hr with
  | abortSkipped | done => exact .refl
  | query queried => exact .queried queried
  | deallocate _ queried => exact (Makes.queried queried).trans (.removeMessage _ _)
  | remove => exact .removeMessage _ _

/-- The heap belongs to the child. -/
structure Of (h : Heap) (c : Child) : Prop where
  control : h.control = c.session.control
  serving : h.serving = true ↔ c.phase ≠ .idle

variable {env : Setup} {x y : Child} {event : Event}

/-- Calls within a session. -/
theorem Of.makes (ho : Of h x) (hx : x.phase ≠ .idle) (hm : Makes x.session.control y.session.control)
    (hy : y.phase ≠ .idle) : ∃ h', Run step Any h h' ∧ Of h' y := by
  obtain ⟨h', hrun, hs, hc⟩ := hm h (ho.serving.2 hx) ho.control
  exact ⟨h', hrun, hc, ⟨fun _ => hy, fun _ => hs⟩⟩

/-- The end of a session. -/
theorem Of.ends {s : Session} (ho : Of h x) (hx : x.phase ≠ .idle)
    (hm : Makes x.session.control s.control) (hy : y.phase = .idle)
    (hc : y.session.control = s.sessionContextDestroy.control) :
    ∃ h', Run step Any h h' ∧ Of h' y := by
  obtain ⟨h', hrun, hs, hd⟩ := (hm.trans (.removals Session.removals_clearSentMessageList)) h
    (ho.serving.2 hx) ho.control
  refine ⟨h'.endSession, .step hrun .endSession trivial ?_, ?_, ?_⟩
  · unfold Heap.step
    rw [if_pos hs]
    rfl
  · rw [hc, Session.control_sessionContextDestroy, ← hd]
    rfl
  · exact ⟨fun he => absurd he Bool.false_ne_true, fun hne => absurd hy hne⟩

/-- Every step of a child is a run of the calls. -/
theorem run_of_stepped (hk : Control.WellKeyed x.session.control) (ho : Of h x)
    (hs : Child.Stepped env x event y) : ∃ h', Run step Any h h' ∧ Of h' y := by
  cases hs with
  | connect idle supplied =>
    have hserving : h.serving = false := by
      rw [← Bool.not_eq_true, ho.serving]
      exact fun hne => hne idle
    refine ⟨h.beginSession, .step .refl .beginSession trivial ?_, ?_, ⟨fun _ => nofun,
      fun _ => rfl⟩⟩
    · unfold Heap.step
      rw [if_neg (by simp [hserving])]
    · show h.control.ended = _
      rw [ho.control]
      rfl
  | frontend serving ready next =>
    have hphase : x.phase ≠ .idle := by simp [serving]
    exact ho.makes hphase (.received hk (Session.received_processFrontendResponse ready next)) hphase
  | @backend reply _ _ waiting next =>
    have hphase : x.phase ≠ .idle := by
      rcases waiting with hw | ⟨q, hw⟩ <;> simp [hw]
    refine ho.makes hphase (.replied (Session.replied_processBackendResponse next)) ?_
    show Child.phaseAfter reply x.session x.phase ≠ .idle
    rcases waiting with hw | ⟨q, hw⟩ <;> rw [hw] <;> unfold Child.phaseAfter
    · simp
    · cases reply <;> simp
  | @disconnect terminate cached serving ready =>
    have hphase : x.phase ≠ .idle := by simp [serving]
    have hflags : Makes x.session.control
        (if terminate = true then x.session.unsetDoingExtendedQueryMessage else x.session).control := by
      split
      · exact .flags rfl
      · exact .refl
    unfold Child.disconnect
    split
    · exact ⟨h, .refl, ho⟩
    · simp only
      split
      · exact ho.makes hphase hflags (nofun)
      · exact ho.ends hphase hflags rfl rfl
  | @reset ans qcnt resetting =>
    have hphase : x.phase ≠ .idle := by simp [resetting]
    unfold Child.reset
    split
    · exact ho.ends hphase .refl rfl rfl
    · rename_i s hr
      exact ho.makes hphase ((Makes.flags rfl).trans (.resetStep (Session.resetStep_resetBackend hr)))
        (nofun)
    · rename_i s hr
      exact ho.makes hphase ((Makes.flags rfl).trans (.resetStep (Session.resetStep_resetBackend hr)))
        (nofun)
    · rename_i s hr
      have hstep : Makes x.session.control s.control :=
        (Makes.flags rfl).trans (.resetStep (Session.resetStep_resetBackend hr))
      exact ho.ends (s := s.setTstate (s.validNodes env) fun _ => .I) hphase hstep rfl rfl
  | abandon resetting =>
    exact ho.ends (by simp [resetting]) .refl rfl rfl

/-- Every run of a child, whatever its steps, is one of calls.  Work in the pools and the rewriting
of a Parse leave the references alone and may come in between. -/
theorem run_of_reachable {P : Child → Event → Prop} (hx : Child.Reachable env P x) :
    ∃ h, Run step Any init h ∧ Of h x := by
  have hinv : Control.WellKeyed x.session.control ∧ ∃ h, Run step Any init h ∧ Of h x := by
    refine hx.invariant
      (I := fun x => Control.WellKeyed x.session.control ∧ ∃ h, Run step Any init h ∧ Of h x) ?_ ?_
    · exact ⟨Child.wellKeyed (.refl : Child.Reachable env Any Child.init), init, .refl, rfl,
        ⟨fun he => absurd he Bool.false_ne_true, fun hne => absurd rfl hne⟩⟩
    · intro x event y ⟨hk, h, hrun, ho⟩ _ hs
      obtain ⟨h', hrun', ho'⟩ := run_of_stepped hk ho hs
      exact ⟨Child.wellKeyed_stepped hk hs, h', hrun.trans hrun', ho'⟩
  exact hinv.2

end Heap

end PgPool
