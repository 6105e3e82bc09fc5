import PgPool.Control.Backend
import PgPool.Control.Frontend

/-!
# The steps of a child and the control part

`Stepped` says once what a step of a child can be.  The reset queries and the end of a session are
described by what they do to the control part.
-/

namespace PgPool

namespace Control

/-- The control part between two sessions. -/
def ended (c : Control) : Control :=
  { c with
    inProgress := false
    doingExtendedQueryMessage := false
    commandSuccess := false
    skipReadingFromBackends := false
    ignoreTillSync := false
    queryContext := none
    uncompletedMessage := none
    messageList := [] }

/-- A simple query, answered on the spot or sent. -/
inductive Queried (env : Setup) (c : Control) (sql : String) : Control → Prop
  | answered (text : String) (node : Node) (skip : Bool) :
      Queried env c sql (c.answerQuery text node skip)
  | sent : Queried env c sql (c.simpleQuery sql (env.statement sql))

/-- What a call of `reset_backend` does, on the control part with no query in progress. -/
inductive ResetStep (env : Setup) (c : Control) : Session.ResetResult → Control → Prop
  | abortSkipped : ResetStep env c .skipped c
  | query {sql : String} {d : Control} (queried : Queried env c sql d) : ResetStep env c .issued d
  | deallocate {m : SentMessage} {d : Control} (found : m ∈ c.messageList)
      (queried : Queried env c (Session.deallocateQuery m.name) d) :
      ResetStep env c .issued (d.removeMessage m.kind m.name)
  | remove {m : SentMessage} (found : m ∈ c.messageList) :
      ResetStep env c .skipped (c.removeMessage m.kind m.name)
  | done (empty : c.messageList = []) : ResetStep env c .done c

end Control

namespace Session

variable {env : Setup} {ans : Answers} {s t : Session}

theorem queried_simpleQuery {sql : String} (h : simpleQuery env ans sql s = some t) :
    Control.Queried env s.control sql t.control := by
  rcases control_simpleQuery h with ⟨text, node, skip, ht⟩ | ht
  · rw [ht]
    exact .answered text node skip
  · rw [ht]
    exact .sent

theorem resetStep_resetMessage {result : ResetResult}
    (h : resetMessage env ans s = some (t, result)) :
    Control.ResetStep env s.control result t.control := by
  unfold resetMessage at h
  cases hl : s.messageList with
  | nil =>
    simp only [hl] at h
    cases h
    exact .done hl
  | cons m rest =>
    have hmem : m ∈ s.control.messageList := by
      change m ∈ s.messageList
      rw [hl]
      exact List.mem_cons_self
    simp only [hl] at h
    split at h
    · cases hq : simpleQuery env ans (deallocateQuery m.name) s with
      | none => simp [hq] at h
      | some u =>
        simp only [hq] at h
        cases h
        rw [control_removeSentMessage]
        exact .deallocate hmem (queried_simpleQuery hq)
    · cases h
      rw [control_removeSentMessage]
      exact .remove hmem

/-- What `reset_backend` does to the control part. -/
theorem resetStep_resetBackend {qcnt : Nat} {result : ResetResult}
    (h : resetBackend env ans qcnt s = some (t, result)) :
    Control.ResetStep env (s.control.setInProgress false) result t.control := by
  unfold resetBackend at h
  simp only at h
  split at h
  · exact resetStep_resetMessage h
  · split at h
    · cases h
      exact .abortSkipped
    · split at h
      · cases h
      · rename_i hq
        cases h
        exact .query (queried_simpleQuery hq)

/-- The end of a session removes messages and forgets the rest. -/
theorem control_sessionContextDestroy :
    s.sessionContextDestroy.control = s.clearSentMessageList.control.ended := rfl

end Session

namespace Child

variable {env : Setup} {c c' : Child} {e : Event}

/-- The connections of a new client, and the pool that is left. -/
inductive Supplied (c : Child) (major : Proto) : Option Nat → Conn → List Conn → Prop
  | opened : Supplied c major none (Conn.opened major) c.pool
  | pooled {k : Nat} {conn : Conn} (found : c.pool[k]? = some conn) :
      Supplied c major (some k) conn (c.pool.eraseIdx k)

/-- What a step can be. -/
inductive Stepped (env : Setup) (c : Child) : Event → Child → Prop
  | connect {lb : NodeId} {source : Option Nat} {major : Proto} {conn : Conn} {pool : List Conn}
      (idle : c.phase = .idle) (supplied : Supplied c major source conn pool) :
      Stepped env c (.connect lb source major) (c.connect env lb conn pool)
  | frontend {msg : FrontendMsg} {ans : Answers} {s : Session} (serving : c.phase = .serving)
      (ready : c.session.inProgress = false)
      (next : Session.processFrontendResponse env ans msg c.session = some s) :
      Stepped env c (.frontend msg ans) { c with session := s }
  | backend {reply : Reply} {ans : Answers} {s : Session}
      (waiting : c.phase = .serving ∨ ∃ q, c.phase = .resetting q true)
      (next : Session.processBackendResponse env ans reply c.session = some s) :
      Stepped env c (.backend reply ans)
        { c with session := s, phase := phaseAfter reply c.session c.phase }
  | disconnect {terminate cached : Bool} (serving : c.phase = .serving)
      (ready : terminate = true → c.session.inProgress = false) :
      Stepped env c (.disconnect terminate cached) (c.disconnect terminate cached)
  | reset {ans : Answers} {qcnt : Nat} (resetting : c.phase = .resetting qcnt false) :
      Stepped env c (.reset ans) (c.reset env ans qcnt)
  | abandon {qcnt : Nat} (resetting : c.phase = .resetting qcnt true) :
      Stepped env c .abandon c.discard

theorem stepped_of_step (h : step env c e = some c') : Stepped env c e c' := by
  unfold step at h
  split at h
  · rename_i lb source major hphase
    split at h
    · cases h
      exact .connect hphase .opened
    · rename_i k
      split at h
      · cases h
      · rename_i conn hconn
        cases h
        exact .connect hphase (.pooled hconn)
  · rename_i msg ans hphase
    split at h
    · cases h
    · rename_i hready
      rw [Bool.not_eq_true] at hready
      split at h
      · cases h
      · rename_i s hs
        cases h
        exact .frontend hphase hready hs
  · rename_i reply ans hphase
    split at h
    · cases h
    · rename_i s hs
      cases h
      exact .backend (Or.inl hphase) hs
  · rename_i reply ans hphase
    split at h
    · cases h
    · rename_i s hs
      cases h
      exact .backend (Or.inr ⟨_, hphase⟩) hs
  · rename_i terminate cached hphase
    split at h
    · cases h
    · rename_i hready
      cases h
      refine .disconnect hphase fun ht => ?_
      simpa [ht] using hready
  · rename_i ans hphase
    cases h
    exact .reset hphase
  · rename_i hphase
    cases h
    exact .abandon hphase
  · cases h

/-- What every step preserves holds in every reachable state. -/
theorem Reachable.invariant {P : Child → Event → Prop} {I : Child → Prop} (h : Reachable env P c)
    (init : I Child.init)
    (preserved : ∀ c e c', I c → P c e → Stepped env c e c' → I c') : I c :=
  Transition.Run.invariant h (fun c e c' hi hp hs => preserved c e c' hi hp (stepped_of_step hs)) init

end Child

end PgPool
