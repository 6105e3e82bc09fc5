import PgPool.Child
import PgPool.Control.Basic

/-!
# What happens on the connections

How each function extends the history of the connections.  `Quiet` is for the functions that leave
the query contexts alone: the transaction commands, ReadyForQuery and the list of sent messages.
-/

namespace PgPool

/-- A command of pgpool's own, or a transaction state that is reported. -/
def Action.Internal : Action → Prop
  | .command _ _ _ | .errorCommand _ | .reported _ _ => True
  | _ => False

namespace Session

/-- The history goes on with actions of a kind; the protocol and the reset context stay. -/
structure Follows (P : Action → Prop) (s t : Session) : Prop where
  major : t.conn.major = s.conn.major
  reset : t.resetContext = s.resetContext
  trace : ∃ new, t.conn.trace = new ++ s.conn.trace ∧ ∀ a ∈ new, P a

/-- Besides, the query contexts stay. -/
structure Quiet (P : Action → Prop) (s t : Session) : Prop extends Follows P s t where
  contexts : t.contexts = s.contexts

section

variable {P Q : Action → Prop} {s t u : Session}

theorem Follows.of_eq (major : t.conn.major = s.conn.major) (reset : t.resetContext = s.resetContext)
    (trace : t.conn.trace = s.conn.trace) : Follows P s t :=
  ⟨major, reset, [], trace, by simp⟩

theorem Follows.refl (s : Session) : Follows P s s := .of_eq rfl rfl rfl

theorem Follows.trans (h : Follows P s t) (h' : Follows P t u) : Follows P s u := by
  obtain ⟨hm, hr, new, htrace, hnew⟩ := h
  obtain ⟨hm', hr', new', htrace', hnew'⟩ := h'
  refine ⟨hm'.trans hm, hr'.trans hr, new' ++ new, ?_, ?_⟩
  · rw [htrace', htrace, List.append_assoc]
  · intro a ha
    exact (List.mem_append.1 ha).elim (hnew' a) (hnew a)

theorem Follows.mono (h : Follows P s t) (hPQ : ∀ a, P a → Q a) : Follows Q s t := by
  obtain ⟨hm, hr, new, htrace, hnew⟩ := h
  exact ⟨hm, hr, new, htrace, fun a ha => hPQ a (hnew a ha)⟩

theorem Follows.emit (s : Session) {a : Action} (ha : P a) : Follows P s (s.emit a) :=
  ⟨rfl, rfl, [a], rfl, by simpa using ha⟩

theorem Quiet.refl (s : Session) : Quiet P s s := ⟨.refl s, rfl⟩

theorem Quiet.trans (h : Quiet P s t) (h' : Quiet P t u) : Quiet P s u :=
  ⟨h.toFollows.trans h'.toFollows, h'.contexts.trans h.contexts⟩

theorem Quiet.mono (h : Quiet P s t) (hPQ : ∀ a, P a → Q a) : Quiet Q s t :=
  ⟨h.toFollows.mono hPQ, h.contexts⟩

theorem Quiet.emit (s : Session) {a : Action} (ha : P a) : Quiet P s (s.emit a) :=
  ⟨.emit s ha, rfl⟩

/-- A change of neither the connections nor the query contexts. -/
theorem Quiet.of_eq (conn : t.conn = s.conn) (reset : t.resetContext = s.resetContext)
    (contexts : t.contexts = s.contexts) : Quiet P s t :=
  ⟨.of_eq (by rw [conn]) reset (by rw [conn]), contexts⟩

end

variable {env : Setup} {ans : Answers} {P : Action → Prop} {s t : Session} {qc : QcId} {node : Node}

/-! ## Transaction commands -/

/-- Commands of pgpool's own add nothing else to the history. -/
theorem ownCommands_quiet : OwnCommands (Quiet Action.Internal) where
  trans h h' := h.trans h'
  command s _ _ _ := .emit s trivial
  errorCommand s _ := .emit s trivial
  reported s _ _ := .emit s trivial
  same major trace reset contexts _ := ⟨.of_eq major reset trace, contexts⟩

/-! ## ReadyForQuery -/

theorem quiet_foldl_emit {α : Type} (f : Session → α → Action) (l : List α)
    (hP : ∀ s a, P (f s a)) : Quiet P s (l.foldl (fun s x => s.emit (f s x)) s) := by
  induction l generalizing s with
  | nil => exact .refl s
  | cons x rest ih => exact (Quiet.emit s (hP s x)).trans ih

theorem quiet_noteReady (h : noteReady env ans s = some t) : Quiet Action.Internal s t := by
  unfold noteReady at h
  split at h
  · split at h
    · cases h
      exact .of_eq rfl rfl rfl
    · obtain ⟨u, hu, rfl⟩ := Option.map_eq_some_iff.1 h
      exact (ownCommands_quiet.noteStatement hu).trans (.of_eq rfl rfl rfl)
  · cases h
    exact .refl _

theorem quiet_releaseContext (c : Option QueryContext) : Quiet P s (s.releaseContext c) := by
  unfold releaseContext
  split
  · exact .refl s
  · split
    · exact .refl s
    · exact .of_eq rfl rfl rfl
    · split
      · exact .refl s
      · exact .of_eq rfl rfl rfl

/-- ReadyForQuery is read first, and everything else is pgpool's own. -/
theorem quiet_readyForQuery (h : readyForQuery env ans s = some t) :
    Quiet Action.Internal (s.emit (.ready (s.validNodes env))) t := by
  unfold readyForQuery at h
  cases hm : abortMismatch env ans (s.emit (.ready (s.validNodes env))) with
  | none => simp [hm] at h
  | some u =>
    simp only [hm] at h
    have hu := ownCommands_quiet.abortMismatch hm
    cases he : (if u.allowCloseTransaction then endInternalTransaction env ans u else some u) with
    | none => simp [he] at h
    | some v =>
      simp only [he] at h
      have hv : Quiet Action.Internal u v := by
        split at he
        · exact ownCommands_quiet.endInternalTransaction he
        · cases he
          exact .refl u
      cases hn : noteReady env ans (readStates env ans v) with
      | none => simp [hn] at h
      | some w =>
        simp only [hn, Option.some.injEq] at h
        rw [← h]
        exact ((hu.trans hv).trans ownCommands_quiet.readStates).trans
          ((quiet_noteReady hn).trans (quiet_releaseContext _))

/-! ## The list of sent messages -/

theorem quiet_removeSentMessage (kind : MsgKind) (name : String) :
    Quiet P s (s.removeSentMessage kind name).1 := by
  unfold removeSentMessage
  cases s.getSentMessage kind name with
  | none => exact .refl s
  | some m =>
    unfold sentMessageDestroy
    simp only
    split <;> exact .of_eq rfl rfl rfl

theorem quiet_addSentMessage (m : SentMessage) : Quiet P s (s.addSentMessage m) := by
  unfold addSentMessage
  cases s.getSentMessage m.kind m.name with
  | none => exact .of_eq rfl rfl rfl
  | some old =>
    simp only
    split
    · exact (quiet_removeSentMessage _ _).trans (.of_eq rfl rfl rfl)
    · exact .refl s

theorem quiet_removeSentMessagesLoop (kind : MsgKind) (fuel i : Nat) :
    Quiet P s (removeSentMessagesLoop kind fuel i s) := by
  induction fuel generalizing i s with
  | zero => exact .refl s
  | succ fuel ih =>
    unfold removeSentMessagesLoop
    cases s.messageList[i]? with
    | none => exact .refl s
    | some m =>
      simp only
      split
      · have hstep : Quiet P s (s.removeSentMessage kind m.name).1 := quiet_removeSentMessage _ _
        split
        · rename_i u hu
          rw [hu] at hstep
          exact hstep.trans (ih i)
        · rename_i u hu
          rw [hu] at hstep
          exact hstep.trans (ih (i + 1))
      · exact ih (i + 1)

theorem quiet_removeSentMessages (kind : MsgKind) : Quiet P s (s.removeSentMessages kind) :=
  quiet_removeSentMessagesLoop kind _ 0

theorem quiet_clearSentMessageList : Quiet P s s.clearSentMessageList := by
  have hloop : ∀ fuel (u : Session), Quiet P u (clearSentMessageLoop fuel u) := by
    intro fuel
    induction fuel with
    | zero => exact .refl
    | succ fuel ih =>
      intro u
      unfold clearSentMessageLoop
      cases u.messageList with
      | nil => exact .refl u
      | cons m rest => exact (quiet_removeSentMessages m.kind).trans (ih _)
  exact hloop _ s

end Session

end PgPool
