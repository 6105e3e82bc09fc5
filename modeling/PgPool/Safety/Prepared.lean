import PgPool.Safety.Inheritance
import PgPool.Safety.Orderly

/-!
# Bind follows Parse over the life of a child

In every run whose steps are careful, a Bind goes only to nodes that have completed the statement it
names, and an Execute or Describe of a portal only to nodes that have completed its Bind.
-/

namespace PgPool

namespace Control

variable {env : Setup} {c d : Control} {reply : Reply}

theorem nextMessage_complete : c.complete.nextMessage = c.nextMessage := by
  unfold complete
  split
  · rfl
  · exact nextMessage_addMessage

theorem nextMessage_dropUncompleted : c.dropUncompleted.nextMessage = c.nextMessage := by
  unfold dropUncompleted
  split
  · rfl
  · exact nextMessage_removeMessage.trans nextMessage_addMessage

theorem nextMessage_removals (hr : Removals c d) : d.nextMessage = c.nextMessage :=
  hr.invariant (I := fun e => e.nextMessage = c.nextMessage)
    (fun _ _ _ h => nextMessage_removeMessage.trans h) rfl

theorem nextMessage_endExtended : c.endExtended.nextMessage = c.nextMessage := by
  unfold endExtended
  split <;> rfl

/-- A reply creates no message. -/
theorem nextMessage_replied (hr : Replied c reply d) : d.nextMessage = c.nextMessage := by
  cases hr with
  | ready =>
    unfold readyForQuery
    split
    · rfl
    · split
      · rfl
      · split <;> rfl
  | parseComplete => exact nextMessage_complete
  | bindComplete => exact nextMessage_complete
  | closeComplete => exact nextMessage_removeMessage
  | error =>
    refine Eq.trans ?_ nextMessage_dropUncompleted
    unfold endError
    split <;> rfl
  | command completed =>
    have hsuccess : ∀ e : Control, e.setSuccess.endExtended.nextMessage = e.nextMessage :=
      fun e => nextMessage_endExtended (c := e.setSuccess)
    refine (hsuccess _).trans ?_
    cases completed with
    | prepare => exact nextMessage_complete
    | other tag removals => exact nextMessage_removals removals
  | ends => exact nextMessage_endExtended
  | _ => rfl

theorem nextMessage_queried {sql : String} (h : Queried env c sql d) :
    c.nextMessage ≤ d.nextMessage := by
  cases h with
  | answered => exact Nat.le_refl _
  | sent =>
    unfold simpleQuery
    split
    · exact Nat.le_succ _
    · exact Nat.le_refl _

theorem nextMessage_received {msg : FrontendMsg} (h : Received env c msg d) :
    c.nextMessage ≤ d.nextMessage := by
  cases h with
  | query => exact nextMessage_queried (c := c.setExtended false) .sent
  | parse => exact Nat.le_succ _
  | bind => exact Nat.le_succ _
  | _ => exact Nat.le_refl _

theorem nextMessage_resetStep {result : Session.ResetResult} (h : ResetStep env c result d) :
    c.nextMessage ≤ d.nextMessage := by
  cases h with
  | query queried => exact nextMessage_queried queried
  | deallocate found queried =>
    rw [nextMessage_removeMessage]
    exact nextMessage_queried queried
  | remove => exact Nat.le_of_eq nextMessage_removeMessage.symm
  | _ => exact Nat.le_refl _

end Control

namespace Session

variable {env : Setup} {ans : Answers} {s t : Session} {reply : Reply} {P : Prop}

theorem numbered_reply (h : Numbered s.nextMessage s.conn.trace)
    (hnext : processBackendResponse env ans reply s = some t) :
    Numbered t.nextMessage t.conn.trace := by
  have hsame : t.nextMessage = s.nextMessage :=
    Control.nextMessage_replied (replied_processBackendResponse hnext)
  rw [hsame]
  cases answered_processBackendResponse hnext with
  | plain idle follows =>
    obtain ⟨-, -, new, htrace, hnew⟩ := follows
    rw [htrace]
    exact h.silent (fun a ha => (hnew a ha).1) (Nat.le_refl _)
  | completes handled completes step =>
    obtain ⟨-, pre, htrace, hpre⟩ := step
    rw [htrace]
    exact Numbered.completed (h.silent (fun a ha => (hpre a ha).1) (Nat.le_refl _)) _ _

/-- Between two clients only the history matters. -/
theorem Orderly.resetting (h : s.Orderly env P) : s.Orderly env False :=
  ⟨False.elim, h.order, h.numbered⟩

theorem orderly_removeSentMessage (h : s.Orderly env False) (kind : MsgKind) (name : String) :
    (s.removeSentMessage kind name).1.Orderly env False := by
  have hcontrol := control_removeSentMessage (s := s) kind name
  obtain ⟨-, -, new, htrace, hnew⟩ :=
    (quiet_removeSentMessage (P := fun _ => False) (s := s) kind name).toFollows
  have hnil : new = [] := List.eq_nil_iff_forall_not_mem.2 hnew
  have hnext : (s.removeSentMessage kind name).1.nextMessage = s.nextMessage :=
    (congrArg Control.nextMessage hcontrol).trans Control.nextMessage_removeMessage
  refine ⟨False.elim, ?_, ?_⟩
  · rw [htrace, hnil]
    exact h.order
  · rw [htrace, hnil, hnext]
    exact h.numbered

theorem orderly_resetBackend {qcnt : Nat} {result : ResetResult} (h : s.Orderly env P)
    (hk : s.control.WellKeyed) (hreset : resetBackend env ans qcnt s = some (t, result)) :
    t.Orderly env False := by
  have hstart : Orderly env False { s with resetContext := true, inProgress := false } :=
    ⟨False.elim, h.order, h.numbered⟩
  have hkeyed : Control.WellKeyed
      (Session.control { s with resetContext := true, inProgress := false }) :=
    hk.of_eq rfl rfl rfl (Nat.le_refl _)
  unfold resetBackend at hreset
  simp only at hreset
  split at hreset
  · unfold resetMessage at hreset
    split at hreset
    · cases hreset
      exact hstart
    · split at hreset
      · split at hreset
        · cases hreset
        · rename_i u hu
          cases hreset
          exact orderly_removeSentMessage (orderly_simpleQuery hstart hkeyed hu) _ _
      · cases hreset
        exact orderly_removeSentMessage hstart _ _
  · split at hreset
    · cases hreset
      exact hstart
    · split at hreset
      · cases hreset
      · rename_i hu
        cases hreset
        exact orderly_simpleQuery hstart hkeyed hu

end Session

namespace Child

open Session

variable {env : Setup} {c c' : Child} {e : Event}

/-- A message from the client is careful, and a completion that is read while it is served is that of
the pending message. -/
def Careful (env : Setup) (c : Child) : Event → Prop
  | .frontend msg ans =>
      c.session.ignoreTillSync = false → CarefulMessage env ans.lookups c.session msg
  | .backend reply _ => c.phase = .serving → Handled c.session →
      c.session.control.Completes reply → ∀ m ∈ c.session.uncompletedMessage,
        c.session.AnswersPending m
  | _ => True

/-- The history of the connections is in order, those in the pool included. -/
structure Ordered (env : Setup) (c : Child) : Prop where
  keyed : c.session.control.WellKeyed
  serving : c.phase = .serving → c.session.resetContext = false
  orderly : c.session.Orderly env (c.phase = .serving)
  pool : ∀ conn ∈ c.pool, InOrder conn.trace ∧ Numbered c.session.nextMessage conn.trace

theorem Ordered.pool_mono (h : Ordered env c) {n : MsgId} (hle : c.session.nextMessage ≤ n) :
    ∀ conn ∈ c.pool, InOrder conn.trace ∧ Numbered n conn.trace := by
  intro conn hconn
  obtain ⟨horder, hnumbered⟩ := h.pool conn hconn
  exact ⟨horder, fun m i hr => Nat.lt_of_lt_of_le (hnumbered m i hr) hle⟩

theorem Orderly.destroy {s : Session} {P Q : Prop} (h : s.Orderly env P) (hQ : ¬ Q) :
    s.sessionContextDestroy.Orderly env Q ∧
      s.sessionContextDestroy.nextMessage = s.nextMessage := by
  obtain ⟨-, -, new, htrace, hnew⟩ :=
    (quiet_clearSentMessageList (P := fun _ => False) (s := s)).toFollows
  have hnil : new = [] := List.eq_nil_iff_forall_not_mem.2 hnew
  have hclear : s.sessionContextDestroy.conn.trace = s.conn.trace := by
    change s.clearSentMessageList.conn.trace = _
    rw [htrace, hnil]
    rfl
  have hnext : s.sessionContextDestroy.nextMessage = s.nextMessage :=
    Control.nextMessage_removals (removals_clearSentMessageList (s := s))
  refine ⟨⟨fun hq => absurd hq hQ, ?_, ?_⟩, hnext⟩
  · rw [hclear]
    exact h.order
  · rw [hclear, hnext]
    exact h.numbered

theorem ordered_discard {P : Prop} (hk : c.session.control.WellKeyed)
    (ho : c.session.Orderly env P)
    (hpool : ∀ conn ∈ c.pool, InOrder conn.trace ∧ Numbered c.session.nextMessage conn.trace) :
    Ordered env c.discard := by
  obtain ⟨hend, hnext⟩ := Orderly.destroy (Q := c.discard.phase = .serving) ho nofun
  refine ⟨wellKeyed_destroy hk, nofun, hend, fun conn hconn => ?_⟩
  change _ ∧ Numbered c.session.sessionContextDestroy.nextMessage conn.trace
  rw [hnext]
  exact hpool conn hconn

/-- A step that is careful keeps the history in order. -/
theorem ordered_stepped (hraw : env.rawMode = false) (h : Ordered env c) (hcareful : Careful env c e)
    (hs : Stepped env c e c') : Ordered env c' := by
  have hkeyed : c'.session.control.WellKeyed := wellKeyed_stepped h.keyed hs
  cases hs with
  | @connect lb source major conn pool idle supplied =>
    have hconn : (InOrder conn.trace ∧ Numbered c.session.nextMessage conn.trace) ∧
        ∀ k ∈ pool, InOrder k.trace ∧ Numbered c.session.nextMessage k.trace := by
      cases supplied with
      | opened =>
        refine ⟨⟨trivial, fun m i hr => ?_⟩, h.pool⟩
        obtain ⟨a, ha, -⟩ := hr
        cases ha
      | pooled found =>
        exact ⟨h.pool conn (List.mem_of_getElem? found),
          fun k hk => h.pool k (List.mem_of_mem_eraseIdx hk)⟩
    obtain ⟨⟨horder, hnumbered⟩, hpool⟩ := hconn
    refine ⟨hkeyed, fun _ => rfl, ⟨fun _ => ?_, horder, hnumbered⟩, hpool⟩
    exact ⟨nofun, nofun, nofun⟩
  | @frontend msg ans s serving ready next =>
    have hreset := h.serving serving
    have ho : c.session.Orderly env True :=
      ⟨fun _ => h.orderly.booked serving, h.orderly.order, h.orderly.numbered⟩
    have ht : s.Orderly env True :=
      orderly_frontend hraw ho h.keyed ready hreset hcareful next
    refine ⟨hkeyed, fun _ => (reset_processFrontendResponse ready next).trans hreset,
      ⟨fun _ => ht.booked trivial, ht.order, ht.numbered⟩, h.pool_mono ?_⟩
    exact Control.nextMessage_received (received_processFrontendResponse ready next)
  | @backend reply ans s waiting next =>
    refine ⟨hkeyed, fun hphase => ?_, ⟨fun hphase => ?_, ?_, ?_⟩, h.pool_mono ?_⟩
    · exact (widens_processBackendResponse next).reset.trans
        (h.serving (serving_of_phaseAfter hphase))
    · have hserving := serving_of_phaseAfter hphase
      exact booked_reply hraw h.keyed (h.orderly.booked hserving) (hcareful hserving) next
    · exact inOrder_reply h.orderly.order next
    · exact numbered_reply h.orderly.numbered next
    · exact Nat.le_of_eq (Control.nextMessage_replied (replied_processBackendResponse next)).symm
  | @disconnect terminate cached serving ready =>
    have hflag : (if terminate then c.session.unsetDoingExtendedQueryMessage
        else c.session).Orderly env True ∧ (if terminate then
          c.session.unsetDoingExtendedQueryMessage else c.session).nextMessage =
            c.session.nextMessage ∧ (if terminate then c.session.unsetDoingExtendedQueryMessage
              else c.session).control.WellKeyed := by
      have ho : c.session.Orderly env True :=
        ⟨fun _ => h.orderly.booked serving, h.orderly.order, h.orderly.numbered⟩
      cases terminate with
      | false => exact ⟨ho, rfl, h.keyed⟩
      | true => exact ⟨ho.of_eq rfl rfl rfl rfl rfl, rfl, h.keyed.of_eq rfl rfl rfl (Nat.le_refl _)⟩
    revert hkeyed
    unfold disconnect
    split
    · exact fun _ => h
    · intro hkeyed
      obtain ⟨ho, hnext, hk⟩ := hflag
      generalize (if terminate then c.session.unsetDoingExtendedQueryMessage
        else c.session) = d at ho hnext hk hkeyed
      simp only at hkeyed ⊢
      cases cached with
      | true =>
        refine ⟨hk, nofun, ⟨nofun, ho.order, ho.numbered⟩, ?_⟩
        exact h.pool_mono (Nat.le_of_eq hnext.symm)
      | false =>
        exact ordered_discard (c := { c with session := d }) hk ho
          (h.pool_mono (Nat.le_of_eq hnext.symm))
  | @reset ans qcnt resetting =>
    revert hkeyed
    unfold Child.reset
    have hmono : ∀ {t : Session} {result : ResetResult},
        resetBackend env ans qcnt c.session = some (t, result) →
          c.session.nextMessage ≤ t.nextMessage := fun hr =>
      Control.nextMessage_resetStep (resetStep_resetBackend hr)
    split
    · exact fun _ => ordered_discard h.keyed h.orderly h.pool
    · rename_i hr
      intro hkeyed
      have ho := orderly_resetBackend h.orderly h.keyed hr
      exact ⟨hkeyed, nofun, ⟨nofun, ho.order, ho.numbered⟩, h.pool_mono (hmono hr)⟩
    · rename_i hr
      intro hkeyed
      have ho := orderly_resetBackend h.orderly h.keyed hr
      exact ⟨hkeyed, nofun, ⟨nofun, ho.order, ho.numbered⟩, h.pool_mono (hmono hr)⟩
    · rename_i t hr
      intro hkeyed
      have ho := orderly_resetBackend h.orderly h.keyed hr
      have hidle : (t.setTstate (t.validNodes env) fun _ => .I).Orderly env False :=
        ⟨False.elim, ho.order, ho.numbered⟩
      obtain ⟨hend, hnext⟩ := Orderly.destroy (Q := (c.keep env t).phase = .serving) hidle nofun
      refine ⟨hkeyed, nofun, hend, fun conn hconn => ?_⟩
      change _ ∧ Numbered (t.setTstate (t.validNodes env) fun _ =>
        .I).sessionContextDestroy.nextMessage conn.trace
      rw [hnext]
      obtain rfl | hold := List.mem_cons.1 hconn
      · exact ⟨ho.order, ho.numbered⟩
      · exact h.pool_mono (hmono hr) conn hold
  | abandon resetting => exact ordered_discard h.keyed h.orderly h.pool

theorem ordered_init : Ordered env init where
  keyed := by
    have hinit : Reachable env Transition.Any init := .refl
    exact wellKeyed hinit
  serving := nofun
  orderly := ⟨nofun, trivial, fun m i hr => by
    obtain ⟨a, ha, -⟩ := hr
    cases ha⟩
  pool := nofun

/-- **Bind follows Parse, Execute follows Bind.** In every run whose steps are careful, whatever has
gone to a node, the node held what it needs. -/
theorem inOrder_of_careful (hraw : env.rawMode = false) (h : Reachable env (Careful env) c) :
    InOrder c.session.conn.trace :=
  (Reachable.invariant (I := Ordered env) h ordered_init
    fun _ _ _ hi hp hs => ordered_stepped hraw hi hp hs).orderly.order

/-! ### Concrete runs -/

instance (lk : Lookups) (stmtName : String) (s : Session) :
    Decidable (BindCovered env lk stmtName s) :=
  inferInstanceAs (Decidable (∀ pm ∈ preparedMessage s stmtName, ∀ i < env.numBackends,
    env.isMyUp i = true → nodesAnew env lk s pm i = true → _ ∨ _))

instance (lk : Lookups) (portal : String) (s : Session) :
    Decidable (PortalCovered env lk portal s) :=
  inferInstanceAs (Decidable (∀ m ∈ s.getSentMessage .B portal, ∀ i < env.numBackends,
    env.isMyUp i = true → nodesAnew env lk s m i = true → _))

instance (s : Session) : Decidable (AllAnswered s) :=
  inferInstanceAs (Decidable (∀ m ∈ s.uncompletedMessage, m ∈ s.messageList))

instance (lk : Lookups) (s : Session) (msg : FrontendMsg) :
    Decidable (CarefulMessage env lk s msg) :=
  match msg with
  | .bind _ _ _ => inferInstanceAs (Decidable (BindCovered _ _ _ _))
  | .execute _ | .describe .portal _ => inferInstanceAs (Decidable (_ ∧ _))
  | .describe .statement _ => inferInstanceAs (Decidable (AllAnswered _))
  | .query _ | .parse _ _ | .close _ _ | .sync | .functionCall | .forward _ => isTrue trivial

instance (s : Session) : Decidable (Handled s) :=
  decidable_of_iff (s.ignoreTillSync = false ∧ s.skipReadingFromBackends = false ∧
    s.conn.major = .v3)
    ⟨fun h => ⟨⟨h.1, h.2.1⟩, h.2.2⟩, fun h => ⟨h.reads, h.noSkip, h.major⟩⟩

instance (d : Control) (reply : Reply) : Decidable (d.Completes reply) :=
  match reply with
  | .parseComplete | .bindComplete => isTrue trivial
  | .commandComplete _ _ _ =>
      inferInstanceAs (Decidable (∃ qc ∈ d.queryContext, (d.statement qc).2.tag = .prepareStmt))
  | .readyForQuery | .closeComplete | .errorResponse _ | .emptyQuery | .rowDescription | .noData
  | .portalSuspended | .copyIn _ | .other => isFalse id

instance (c : Child) (e : Event) : Decidable (Careful env c e) :=
  match e with
  | .frontend _ _ => inferInstanceAs (Decidable (_ → _))
  | .backend _ _ => inferInstanceAs (Decidable (_ → _ → _ → _))
  | .connect _ _ _ | .disconnect _ _ | .reset _ | .abandon => isTrue trivial

/-- `SELECT 1` is parsed as `s` on the load balance node 1, bound as `p` and executed. -/
def executeOnReplica : List Event :=
  [.connect 1 none .v3, .frontend (.parse "s" "SELECT 1") .quiet, .backend .parseComplete .quiet,
   .frontend (.bind "p" "s" []) .quiet, .backend .bindComplete .quiet,
   .frontend (.execute "p") .quiet]

theorem inOrder_executeOnReplica : InOrder (after .replicaPair executeOnReplica).session.conn.trace :=
  inOrder_of_careful rfl (reachable_after (by decide +kernel) (by decide +kernel))

/-- `SELECT 1` is parsed as `s` outside of a transaction, and bound in one. -/
def bindInTransaction : List Event :=
  [.connect 1 none .v3, .frontend (.parse "s" "SELECT 1") .quiet, .backend .parseComplete .quiet,
   .frontend .sync .quiet, .backend .readyForQuery .quiet,
   .frontend (.query "BEGIN") .quiet, .backend (.commandComplete .begin .began false) .quiet,
   .backend .readyForQuery (.smooth fun _ => .T), .frontend (.bind "p" "s" []) .quiet]

/-- The Bind goes to the master, which has not been sent the Parse. -/
theorem not_inOrder_bindInTransaction :
    Reachable .replicaPair Transition.Any (after .replicaPair bindInTransaction) ∧
      ¬ InOrder (after .replicaPair bindInTransaction).session.conn.trace :=
  ⟨reachable_after (by decide +kernel) (Transition.holds_any _ _), by decide +kernel⟩

end Child

end PgPool
