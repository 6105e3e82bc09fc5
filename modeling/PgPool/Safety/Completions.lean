import PgPool.Control.WellKeyed

/-!
# The list of sent messages follows the backends

What is found in the list right after a completion, and what an error for a Parse, a Bind or a SQL
PREPARE leaves in it.
-/

namespace PgPool

open Keyed Transition

namespace Control

variable {c : Control} {m : SentMessage}

/-- Right after it has been added a message is found, unless its name is not empty and taken. -/
theorem find_addMessage (h : WellKeyed c) :
    (c.addMessage m).find m.kind m.name =
      if c.find m.kind m.name ≠ none ∧ m.name ≠ "" then c.find m.kind m.name else some m := by
  change lookup SentMessage.key m.key (c.addMessage m).messageList = _
  rw [messageList_addMessage]
  split
  · rfl
  · rw [lookup_append, h.distinct.lookup_remove, lookup_singleton]
    simp

/-- Adding a message and removing its key leaves the other keys. -/
theorem messageList_dropUncompleted (hm : c.uncompletedMessage = some m) :
    c.dropUncompleted.messageList = Keyed.remove SentMessage.key m.key (c.addMessage m).messageList := by
  unfold dropUncompleted
  rw [hm]
  exact messageList_removeMessage

/-- The error path leaves the list as it is, without the message, exactly if the list has no entry of
its kind and name. -/
theorem dropUncompleted_iff (hm : c.uncompletedMessage = some m) :
    (c.dropUncompleted.messageList = c.messageList ∧ m ∉ c.dropUncompleted.messageList) ↔
      c.find m.kind m.name = none := by
  rw [messageList_dropUncompleted hm, messageList_addMessage]
  constructor
  · rintro ⟨hlist, -⟩
    by_contra hfind
    -- an entry of that key is missing in the end, whatever its name
    have hlen : (Keyed.remove SentMessage.key m.key c.messageList).length + 1 =
        c.messageList.length := length_remove hfind
    split at hlist
    · rw [hlist] at hlen
      omega
    · have hlast : lookup SentMessage.key m.key
          (Keyed.remove SentMessage.key m.key c.messageList ++ [m]) ≠ none := by
        rw [lookup_append, lookup_singleton]
        simp
      have hadd := length_remove hlast
      rw [hlist, List.length_append, List.length_singleton] at hadd
      omega
  · intro hfind
    have hself : Keyed.remove SentMessage.key m.key c.messageList = c.messageList :=
      remove_eq_self hfind
    have hback : Keyed.remove SentMessage.key m.key (c.messageList ++ [m]) = c.messageList :=
      remove_append_singleton hfind
    simp only [hfind, ne_eq, not_true, false_and, if_false, hself, hback, true_and]
    exact fun hmem => lookup_eq_none.1 hfind m hmem rfl

end Control

/-- The next reply is read from the backends. -/
structure ReadsReply (s : Session) : Prop where
  reads : s.ignoreTillSync = false
  noSkip : s.skipReadingFromBackends = false

/-- The next reply is read and handled by the functions for protocol V3, the only one that has
ParseComplete, BindComplete and CommandComplete. -/
structure Handled (s : Session) : Prop extends ReadsReply s where
  major : s.conn.major = .v3

/-- The messages have the same contents and the same query context. -/
def SentMessage.Same (m m' : SentMessage) : Prop :=
  m.contents = m'.contents ∧ m.queryContext = m'.queryContext

instance (m m' : SentMessage) : Decidable (m.Same m') := inferInstanceAs (Decidable (_ ∧ _))

/-- `pool_get_sent_message` returns the message. -/
def Found (s : Session) (m : SentMessage) : Prop :=
  ∃ m', s.getSentMessage m.kind m.name = some m' ∧ m'.Same m

instance (s : Session) (m : SentMessage) : Decidable (Found s m) :=
  match h : s.getSentMessage m.kind m.name with
  | none => .isFalse fun ⟨_, hm, _⟩ => by simp [h] at hm
  | some m' => decidable_of_iff (m'.Same m) (by simp [Found, h])

/-- The message that a completion is about: the pending Parse, Bind or PREPARE, or else the PREPARE
that is the statement of the portal that Execute has run. -/
inductive About (s : Session) : Reply → SentMessage → Prop
  | parse {m : SentMessage} (pending : s.uncompletedMessage = some m) (new : m ∉ s.messageList)
      (kind : m.kind = .P) : About s .parseComplete m
  | bind {m : SentMessage} (pending : s.uncompletedMessage = some m) (new : m ∉ s.messageList)
      (kind : m.kind = .B) : About s .bindComplete m
  | prepare {m : SentMessage} {qc : QcId} {name : String} {query : Node} {tag : CommandTag}
      {effect : TxnEffect} {mismatch : Bool} (pending : s.uncompletedMessage = some m)
      (new : m ∉ s.messageList) (kind : m.kind = .Q) (current : s.queryContext = some qc)
      (tree : (s.contexts qc).parseTree = .prepareStmt name query) :
      About s (.commandComplete tag effect mismatch) m
  | executed {m pm : SentMessage} {qc : QcId} {name : String} {query : Node} {tag : CommandTag}
      {effect : TxnEffect} {mismatch : Bool} (idle : s.uncompletedMessage = none)
      (current : s.queryContext = some qc)
      (tree : (s.contexts qc).parseTree = .prepareStmt name query)
      (parsed : pm ∈ s.messageList) (parsedKind : pm.kind = .P) (parsedContext : pm.queryContext = qc)
      (kind : m.kind = .Q) (context : m.queryContext = qc) :
      About s (.commandComplete tag effect mismatch) m

namespace Session

variable {env : Setup} {ans : Answers} {s t : Session} {m : SentMessage} {reply : Reply}

theorem processReplyV3_of_handled (h : Handled s) :
    processBackendResponse env ans reply s = processReplyV3 env ans reply s := by
  simp [processBackendResponse, h.reads, h.noSkip, h.major]

theorem found_iff : Found s m ↔ ∃ m', s.control.find m.kind m.name = some m' ∧ m'.Same m := Iff.rfl

/-- The completion of a PREPARE. -/
theorem messageList_commandComplete {qc : QcId} {name : String} {query : Node}
    (effect : TxnEffect) (mismatch : Bool) (current : s.queryContext = some qc)
    (tree : (s.contexts qc).parseTree = .prepareStmt name query) :
    (s.commandComplete env effect mismatch).messageList = s.control.complete.messageList := by
  have h : (s.commandComplete env effect mismatch).control = s.control.complete := by
    unfold commandComplete
    simp only
    rw [control_setMismatchNtuples,
      show (s.emit (.tagged (s.validNodes env) effect)).queryContext = some qc from current]
    simp only
    rw [show (s.emit (.tagged (s.validNodes env) effect)).contexts qc = s.contexts qc from rfl, tree,
      completeStatement, control_completePrepare, control_emit]
  exact congrArg Control.messageList h

theorem messageList_endExtended : s.endExtended.messageList = s.messageList := by
  unfold endExtended
  split <;> rfl

/-- All these completions put the uncompleted message into the list. -/
theorem messageList_of_about (handled : Handled s) (about : About s reply m)
    (h : processBackendResponse env ans reply s = some t) :
    t.messageList = s.control.complete.messageList := by
  rw [processReplyV3_of_handled handled] at h
  cases about with
  | parse =>
    cases h
    exact congrArg Control.messageList (control_completeMessage _)
  | bind =>
    cases h
    exact congrArg Control.messageList (control_completeMessage _)
  | @prepare _ _ _ _ _ effect mismatch _ _ _ current tree =>
    cases h
    rw [messageList_endExtended]
    exact messageList_commandComplete effect mismatch current tree
  | @executed _ _ _ _ _ _ effect mismatch _ current tree =>
    cases h
    rw [messageList_endExtended]
    exact messageList_commandComplete effect mismatch current tree

/-- Whether the message of a completion is found. -/
theorem found_complete_iff (hk : s.control.WellKeyed) (about : About s reply m) (list : t.messageList =
    s.control.complete.messageList) :
    Found t m ↔ s.uncompletedMessage = some m ∧
      (m.name = "" ∨ ∀ old, s.getSentMessage m.kind m.name = some old → old.Same m) := by
  have hpending : s.uncompletedMessage = some m → (Found t m ↔
      (m.name = "" ∨ ∀ old, s.getSentMessage m.kind m.name = some old → old.Same m)) := by
    intro hm
    have hfind : t.control.find m.kind m.name = (s.control.addMessage m).find m.kind m.name := by
      unfold Control.find
      rw [show t.control.messageList = s.control.complete.messageList from list, Control.complete,
        show s.control.uncompletedMessage = some m from hm]
      rfl
    rw [found_iff, hfind, Control.find_addMessage hk]
    change _ ↔ m.name = "" ∨ ∀ old, s.control.find m.kind m.name = some old → old.Same m
    by_cases hname : m.name = ""
    · simp [hname, SentMessage.Same]
    · cases hf : s.control.find m.kind m.name with
      | none => simp [SentMessage.Same]
      | some old => simp [hname]
  cases about with
  | parse pending | bind pending | prepare pending =>
    simp only [pending, true_and]
    exact hpending pending
  | @executed _ pm _ _ _ _ _ _ idle current tree parsed parsedKind parsedContext kind context =>
    simp only [idle, reduceCtorEq, false_and, iff_false]
    rintro ⟨m', hm', -, hqc⟩
    have hfind : s.control.find m.kind m.name = some m' := by
      have hnone : s.control.complete = s.control := by
        unfold Control.complete
        rw [show s.control.uncompletedMessage = none from idle]
      rw [hnone] at list
      unfold Control.find
      rw [show s.control.messageList = t.messageList from list.symm]
      exact hm'
    -- a context that has been parsed is not that of a SQL PREPARE
    have hkind : m'.kind = .Q := kind ▸ congrArg Prod.fst (lookup_key hfind)
    exact hk.unmixed pm parsed m' (lookup_mem hfind) (by rw [parsedContext, hqc, context])
      parsedKind hkind

end Session

namespace Child

variable {env : Setup} {c c₁ c₂ c₃ : Child} {ans : Answers} {m : SentMessage} {reply : Reply}

theorem backend_step (h : step env c (.backend reply ans) = some c₁) :
    Session.processBackendResponse env ans reply c.session = some c₁.session := by
  cases stepped_of_step h with
  | backend _ next => exact next

/-- **Completions.** In every reachable state, the message of a completion is found afterwards exactly
if it was pending, and its name is empty or not taken by another message. -/
theorem found_after_completion_iff (reachable : Reachable env Any c) (handled : Handled c.session)
    (about : About c.session reply m) (next : step env c (.backend reply ans) = some c₁) :
    Found c₁.session m ↔ c.session.uncompletedMessage = some m ∧
      (m.name = "" ∨ ∀ old, c.session.getSentMessage m.kind m.name = some old → old.Same m) :=
  Session.found_complete_iff (wellKeyed reachable) about
    (Session.messageList_of_about handled about (backend_step next))

/-- A portal is bound, its transaction ends, and it is bound again to another statement. -/
def portalReused : List Event :=
  [.connect 1 none .v3,
   .frontend (.parse "s" "SELECT 1") .quiet, .backend .parseComplete .quiet,
   .frontend (.parse "t" "INSERT") .quiet, .backend .parseComplete .quiet,
   .frontend (.bind "p" "s" []) .quiet, .backend .bindComplete .quiet,
   .frontend .sync .quiet, .backend .readyForQuery .quiet,
   .frontend (.bind "p" "t" []) .quiet]

/-- The second BindComplete leaves the first portal in the list. -/
theorem portalReused_not_found :
    About (after .standbyPair portalReused).session .bindComplete
        ⟨3, .B, .bind "p" "t" [], 0, "p", 1⟩ ∧
      step .standbyPair (after .standbyPair portalReused) (.backend .bindComplete .quiet) =
        some (after .standbyPair (portalReused ++ [.backend .bindComplete .quiet])) ∧
      ¬ Found (after .standbyPair (portalReused ++ [.backend .bindComplete .quiet])).session
        ⟨3, .B, .bind "p" "t" [], 0, "p", 1⟩ := by
  refine ⟨.bind (by decide +kernel) (by decide +kernel) rfl, ?_, by decide +kernel⟩
  exact step_after _ _ (by decide +kernel) (by decide +kernel)

/-- The first BindComplete puts its portal into the list. -/
theorem found_after_first_bind :
    Found (after .standbyPair (portalReused.take 7)).session ⟨2, .B, .bind "p" "s" [], 0, "p", 0⟩ :=
  (found_after_completion_iff (c := after .standbyPair (portalReused.take 6))
    (reachable_after (by decide +kernel) (holds_any _ _))
    ⟨⟨by decide +kernel, by decide +kernel⟩, by decide +kernel⟩
    (.bind (by decide +kernel) (by decide +kernel) rfl)
    (step_after _ _ (by decide +kernel) (by decide +kernel))).2
    ⟨by decide +kernel, Or.inr (by decide +kernel)⟩

/-! ## Errors -/

/-- A reply that is only forwarded. -/
def Notice (_ : Child) (e : Event) : Prop := ∃ ans, e = .backend .other ans

theorem frontend_step {msg : FrontendMsg} (h : step env c (.frontend msg ans) = some c₁) :
    Received env c.session.control msg c₁.session.control := by
  cases stepped_of_step h with
  | frontend _ ready next => exact Session.received_processFrontendResponse ready next

/-- No message from the frontend changes the list. -/
theorem messageList_received {d e : Control} {msg : FrontendMsg} (h : Received env d msg e) :
    e.messageList = d.messageList := by
  cases h with
  | @query sql =>
    unfold Control.simpleQuery
    cases env.statement sql <;> rfl
  | _ => rfl

/-- Nor does a notice. -/
theorem control_notices (h : Run (step env) Notice c c₁) :
    c₁.session.messageList = c.session.messageList ∧
      c₁.session.uncompletedMessage = c.session.uncompletedMessage := by
  refine h.invariant (I := fun d => d.session.messageList = c.session.messageList ∧
    d.session.uncompletedMessage = c.session.uncompletedMessage) ?_ ⟨rfl, rfl⟩
  rintro d e d' ⟨hlist, hu⟩ ⟨ans, rfl⟩ hs
  have hr := Session.replied_processBackendResponse (backend_step hs)
  have hsame : d'.session.control.messageList = d.session.control.messageList ∧
      d'.session.control.uncompletedMessage = d.session.control.uncompletedMessage := by
    generalize d'.session.control = x at hr
    cases hr with
    | ends reply_eq => simp at reply_eq
    | _ => exact ⟨rfl, rfl⟩
  exact ⟨hsame.1.trans hlist, hsame.2.trans hu⟩

/-- An error of protocol V2 leaves the list alone. -/
theorem messageList_errorV2 {s t : Session} {fatal : Bool} (reads : ReadsReply s)
    (major : s.conn.major = .v2)
    (h : Session.processBackendResponse env ans (.errorResponse fatal) s = some t) :
    t.messageList = s.messageList := by
  have ht : Session.noteFailure env (s.errorResponse env) = t := by
    simpa [Session.processBackendResponse, reads.reads, reads.noSkip, major,
      Session.processReplyV2] using h
  have hcontrol : t.control = s.control := by
    rw [← ht, Session.control_noteFailure]
    exact Session.control_errorResponse
  exact congrArg Control.messageList hcontrol

/-- An error of protocol V3 drops the uncompleted message. -/
theorem messageList_errorV3 {s t : Session} {fatal : Bool} (handled : Handled s)
    (h : Session.processBackendResponse env ans (.errorResponse fatal) s = some t) :
    t.messageList = s.control.dropUncompleted.messageList := by
  rw [Session.processReplyV3_of_handled handled] at h
  obtain ⟨u, hu, ht⟩ := Option.map_eq_some_iff.1 h
  unfold Session.errorResponse3 at hu
  split at hu
  · cases hu
  · cases hu
    have hend : ∀ d : Control, d.endError.messageList = d.messageList := by
      intro d
      unfold Control.endError
      split <;> rfl
    rw [← ht]
    refine (congrArg Control.messageList Session.control_endError).trans ((hend _).trans ?_)
    rw [Session.control_dropUncompleted, Session.control_raiseIntentionalErrorIfNeed]

/-- **Errors.** The error for an attempted message leaves the list as it was before the attempt,
without that message, exactly if the protocol is V2 or the list had no entry of its kind and name. -/
theorem list_after_error_iff {msg : FrontendMsg} {ans₁ : Answers} {fatal : Bool}
    (attempt : step env c (.frontend msg ans) = some c₁)
    (pending : c₁.session.uncompletedMessage = some m) (new : m ∉ c.session.messageList)
    (notices : Run (step env) Notice c₁ c₂) (reads : ReadsReply c₂.session)
    (error : step env c₂ (.backend (.errorResponse fatal) ans₁) = some c₃) :
    (c₃.session.messageList = c.session.messageList ∧ m ∉ c₃.session.messageList) ↔
      (c₂.session.conn.major = .v2 ∨ c.session.getSentMessage m.kind m.name = none) := by
  obtain ⟨hlist₂, hu₂⟩ := control_notices notices
  have hlist₁ : c₁.session.messageList = c.session.messageList :=
    messageList_received (frontend_step attempt)
  have hlist : c₂.session.control.messageList = c.session.messageList := hlist₂.trans hlist₁
  cases hmajor : c₂.session.conn.major with
  | v2 =>
    have herror : c₃.session.messageList = c.session.messageList :=
      (messageList_errorV2 reads hmajor (backend_step error)).trans hlist
    simp [herror, new]
  | v3 =>
    have hiff := Control.dropUncompleted_iff (c := c₂.session.control) (hu₂.trans pending)
    rw [← messageList_errorV3 ⟨reads, hmajor⟩ (backend_step error), hlist] at hiff
    simp only [reduceCtorEq, false_or]
    refine hiff.trans ?_
    rw [Control.find, hlist]
    rfl

/-- The same statement is parsed twice. -/
def parsedTwice : List Event :=
  [.connect 1 none .v3, .frontend (.parse "s" "SELECT 1") .quiet, .backend .parseComplete .quiet,
   .frontend (.parse "s" "SELECT 1") .quiet]

/-- The error for the second Parse removes the entry of the first. -/
theorem parsedTwice_lost :
    (after .standbyPair (parsedTwice ++ [.backend (.errorResponse false) .quiet])).session.messageList
        = [] ∧
      (after .standbyPair (parsedTwice.take 3)).session.messageList =
        [⟨0, .P, .parse "s" "SELECT 1", 0, "s", 0⟩] ∧
      (after .standbyPair parsedTwice).session.uncompletedMessage =
        some ⟨1, .P, .parse "s" "SELECT 1", 0, "s", 1⟩ := by
  decide +kernel

/-- The error for a first Parse leaves the list empty. -/
theorem list_after_first_error :
    (after .standbyPair
        (parsedTwice.take 2 ++ [.backend (.errorResponse false) .quiet])).session.messageList =
      (after .standbyPair (parsedTwice.take 1)).session.messageList :=
  ((list_after_error_iff (m := ⟨0, .P, .parse "s" "SELECT 1", 0, "s", 0⟩)
    (step_after (parsedTwice.take 1) (.frontend (.parse "s" "SELECT 1") .quiet)
      (by decide +kernel) (by decide +kernel))
    (by decide +kernel) (by decide +kernel) .refl ⟨by decide +kernel, by decide +kernel⟩
    (step_after (parsedTwice.take 2) _ (by decide +kernel) (by decide +kernel))).2
    (Or.inr (by decide +kernel))).1

end Child

end PgPool
