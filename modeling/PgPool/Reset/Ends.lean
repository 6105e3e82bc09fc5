import Mathlib.Order.WellFounded
import PgPool.Reset.Run

/-!
# When the reset run ends

Every turn either issues something, which makes less work, or reads a reply.  A turn that does neither
leads nowhere: messages are ignored until a Sync that never comes, or the query has gone to no node.
-/

namespace PgPool

namespace Reset

open Session Control

variable {env : Setup} {w : World} {x y : ResetRun} {s t : Session} {ans : Answers}
  {result : ResetResult}

/-! ## `reset_backend` -/

/-- The text of a DEALLOCATE is not parsed as a PREPARE. -/
def DeallocateParses (env : Setup) : Prop :=
  ∀ message name query, env.statement (deallocateQuery message) ≠ .prepareStmt name query

theorem work_eq : x.work env =
    2 * (env.resetQueryList.length - x.qcnt) + x.session.control.messages :=
  Nat.add_assoc _ _ _

/-- A message goes, whether or not it has to be deallocated. -/
theorem resetMessage_cases (hparse : DeallocateParses env)
    (h : resetMessage env ans s = some (t, result)) :
    (result = .done ∧ s.messageList = []) ∨
      result ≠ .done ∧ t.control.messages + 1 = s.control.messages := by
  unfold resetMessage at h
  cases hl : s.messageList with
  | nil =>
    rw [hl] at h
    cases h
    exact Or.inl ⟨rfl, rfl⟩
  | cons m rest =>
    have hremove : ∀ u : Session, u.messageList = s.messageList →
        u.control.messages = s.control.messages →
        (u.removeSentMessage m.kind m.name).1.control.messages + 1 = s.control.messages := by
      intro u hlist hmessages
      have hmem : m ∈ u.control.messageList := by
        change m ∈ u.messageList
        rw [hlist, hl]
        exact List.mem_cons_self
      have hlen := length_removeMessage hmem
      rw [control_removeSentMessage, messages, uncompletedMessage_removeMessage]
      unfold messages at hmessages ⊢
      omega
    simp only [hl] at h
    split at h
    · split at h
      · cases h
      · next u hquery =>
        cases h
        obtain ⟨hlist, -, hmessages⟩ := (queried_simpleQuery hquery).messages_le
        exact Or.inr ⟨by simp, hremove u hlist (hmessages (hparse m.name))⟩
    · cases h
      exact Or.inr ⟨by simp, hremove s rfl rfl⟩

/-- What a call of `reset_backend` does. -/
theorem resetBackend_cases (hparse : DeallocateParses env)
    (h : x.resetBackend env w = some (t, result)) :
    (∃ query, env.resetQueryList[x.qcnt]? = some query ∧
        (result = .skipped ∧ query = "ABORT" ∧ t.control.messages = x.session.control.messages ∨
          result = .issued ∧ t.control.messages ≤ x.session.control.messages + 1)) ∨
      env.resetQueryList[x.qcnt]? = none ∧
        (result = .done ∨ result ≠ .done ∧ t.control.messages + 1 = x.session.control.messages) := by
  unfold ResetRun.resetBackend Session.resetBackend at h
  simp only at h
  cases hquery : env.resetQueryList[x.qcnt]? with
  | none =>
    rw [hquery] at h
    refine Or.inr ⟨rfl, ?_⟩
    obtain ⟨hdone, -⟩ | hmore := resetMessage_cases hparse h
    · exact Or.inl hdone
    · exact Or.inr hmore
  | some query =>
    rw [hquery] at h
    refine Or.inl ⟨query, rfl, ?_⟩
    simp only at h
    split at h
    · next habort =>
      cases h
      exact Or.inl ⟨rfl, habort.1, rfl⟩
    · split at h
      · cases h
      · next u hsend =>
        cases h
        exact Or.inr ⟨rfl, (queried_simpleQuery hsend).messages_le.2.1⟩

/-- A call that is not the last one makes less work. -/
theorem work_lt (hparse : DeallocateParses env) (h : x.resetBackend env w = some (t, result))
    (hmore : result ≠ .done) :
    2 * (env.resetQueryList.length - (x.qcnt + 1)) + t.control.messages < x.work env := by
  rw [work_eq]
  obtain ⟨query, hquery, hcase⟩ | ⟨-, hdone | ⟨-, hless⟩⟩ := resetBackend_cases hparse h
  · have hlt : x.qcnt < env.resetQueryList.length := (List.getElem?_eq_some_iff.1 hquery).1
    obtain ⟨-, -, hsame⟩ | ⟨-, hone⟩ := hcase <;> omega
  · exact absurd hdone hmore
  · omega

/-! ## The shape of a run -/

/-- The queries before `qcnt` have been issued.  While a reply is awaited it is unread up to its
ReadyForQuery; otherwise no ReadyForQuery is unread. -/
structure Shape (env : Setup) (x : ResetRun) : Prop where
  issued : ((env.resetQueryList.take x.qcnt).filter fun query => query ≠ "ABORT").Sublist x.issued
  quiet : x.waiting = false → ∀ r ∈ x.unread, r.reply.isReady = false
  awaited : x.waiting = true → ∃ replies ready, x.unread = replies ++ [ready] ∧
    (∀ r ∈ replies, r.reply.isReady = false) ∧ ready.reply.isReady = true

theorem shape_begin {pending : List Received} (h : ∀ r ∈ pending, r.reply.isReady = false) :
    Shape env (begin s pending) where
  issued := by simp [begin]
  quiet _ := h
  awaited := nofun

/-- One more query has been issued, or skipped as an ABORT. -/
theorem issued_succ (hparse : DeallocateParses env) (hshape : Shape env x)
    (h : x.resetBackend env w = some (t, result)) :
    (result = .skipped → ((env.resetQueryList.take (x.qcnt + 1)).filter
        fun query => query ≠ "ABORT").Sublist x.issued) ∧
      (result = .issued → ((env.resetQueryList.take (x.qcnt + 1)).filter
        fun query => query ≠ "ABORT").Sublist (x.issued ++ [x.query env])) := by
  obtain ⟨query, hquery, hcase⟩ | ⟨hnone, -⟩ := resetBackend_cases hparse h
  · have htake : env.resetQueryList.take (x.qcnt + 1) = env.resetQueryList.take x.qcnt ++ [query] := by
      simp [List.take_add_one, hquery]
    rw [htake, List.filter_append]
    constructor
    · intro hskipped
      obtain ⟨-, habort, -⟩ | ⟨hissued, -⟩ := hcase
      · simpa [habort] using hshape.issued
      · rw [hskipped] at hissued
        cases hissued
    · intro hissued
      have hthis : x.query env = query := by
        simp [ResetRun.query, hquery]
      rw [hthis]
      exact hshape.issued.append List.filter_sublist
  · have hlen : env.resetQueryList.length ≤ x.qcnt := List.getElem?_eq_none_iff.1 hnone
    have htake : env.resetQueryList.take (x.qcnt + 1) = env.resetQueryList.take x.qcnt := by
      rw [List.take_of_length_le hlen, List.take_of_length_le (Nat.le_succ_of_le hlen)]
    rw [htake]
    exact ⟨fun _ => hshape.issued, fun _ => hshape.issued.trans (List.sublist_append_left _ _)⟩

/-- The last call: all queries have been issued. -/
theorem restored_of_done (hparse : DeallocateParses env) (hshape : Shape env x)
    (hwaiting : x.waiting = false) (h : x.resetBackend env w = some (t, .done)) :
    ResetRun.Restored env { x with session := t } := by
  obtain ⟨query, -, ⟨hne, -⟩ | ⟨hne, -⟩⟩ | ⟨hnone, -⟩ := resetBackend_cases hparse h
  · cases hne
  · cases hne
  · have hlen : env.resetQueryList.length ≤ x.qcnt := List.getElem?_eq_none_iff.1 hnone
    have hissued := hshape.issued
    rw [List.take_of_length_le hlen] at hissued
    exact ⟨hissued, hshape.quiet hwaiting⟩

/-! ## One turn -/

/-- A turn that is smooth ends the run as it should, or goes on with less to do. -/
def Goes (env : Setup) (w : World) (x : ResetRun) : Prop :=
  (∃ y, x.next env w = .inr (.continue, y) ∧ ResetRun.Restored env y) ∨
    ∃ y, x.next env w = .inl y ∧ Shape env y ∧
      Prod.Lex (· < ·) (· < ·) (y.work env, y.reading) (x.work env, x.reading)

theorem goes_reset (hparse : DeallocateParses env) (hshape : Shape env x)
    (hwaiting : x.waiting = false) (hwf : x.wellFormed env w = true) (hsmooth : x.smooth env w = true) :
    Goes env w x := by
  simp only [ResetRun.wellFormed, hwaiting, if_true] at hwf
  simp only [ResetRun.smooth, hwaiting, if_true] at hsmooth
  obtain ⟨⟨t, result⟩, h⟩ := Option.isSome_iff_exists.1 hwf
  rw [h] at hsmooth
  cases result with
  | done =>
    exact Or.inl ⟨_, by simp [ResetRun.next, hwaiting, h], restored_of_done hparse hshape hwaiting h⟩
  | skipped =>
    refine Or.inr ⟨{ x with session := t, qcnt := x.qcnt + 1 }, by simp [ResetRun.next, hwaiting, h],
      ?_, .left _ _ ?_⟩
    · exact ⟨(issued_succ hparse hshape h).1 rfl, hshape.quiet, hshape.awaited⟩
    · rw [work_eq]
      exact work_lt hparse h nofun
  | issued =>
    simp only at hsmooth
    refine Or.inr ⟨{ x with
      session := t, qcnt := x.qcnt + 1, waiting := true,
      unread := x.unread ++ w.reply x.issued.length, issued := x.issued ++ [x.query env] },
      by simp [ResetRun.next, hwaiting, h, hsmooth], ?_, .left _ _ ?_⟩
    · refine ⟨(issued_succ hparse hshape h).2 rfl, nofun, fun _ => ?_⟩
      refine ⟨x.unread ++ w.replies x.issued.length, ⟨.readyForQuery, _, _⟩,
        (List.append_assoc _ _ _).symm, fun r hr => ?_, rfl⟩
      obtain hr | hr := List.mem_append.1 hr
      · exact hshape.quiet hwaiting r hr
      · exact w.plain _ r hr
    · rw [work_eq]
      exact work_lt hparse h nofun

/-- The state after a reply has been read. -/
def ResetRun.after (x : ResetRun) (s : Session) (r : Received) (rest : List Received) : ResetRun :=
  { x with session := s, waiting := !r.reply.isReady, unread := rest, skewed := r.skewed }

theorem work_after (rest : List Received) {r : Received}
    (h : processBackendResponse env r.ans r.reply x.session = some s) :
    (x.after s r rest).work env ≤ x.work env := by
  have hmessages := (replied_processBackendResponse h).messages_le
  rw [work_eq, work_eq]
  exact Nat.add_le_add_left hmessages _

/-- A reply has been read: one less, or the end of the query. -/
theorem reading_after {rest : List Received} {r : Received} (hwaiting : x.waiting = true)
    (hunread : x.unread = r :: rest) : (x.after s r rest).reading < x.reading := by
  have hskip := Bool.toNat_le s.skipReadingFromBackends
  unfold ResetRun.reading ResetRun.after
  simp only [hwaiting, hunread, if_true, List.length_cons]
  split <;> omega

theorem shape_after (hshape : Shape env x) (hwaiting : x.waiting = true) {rest : List Received}
    {r : Received} (hunread : x.unread = r :: rest) : Shape env (x.after s r rest) := by
  obtain ⟨replies, ready, hall, hplain, hready⟩ := hshape.awaited hwaiting
  rw [hunread] at hall
  cases replies with
  | nil =>
    obtain ⟨rfl, rfl⟩ : r = ready ∧ rest = [] := by simpa using hall
    have hends : (x.after s r []).waiting = false := by simp [ResetRun.after, hready]
    exact ⟨hshape.issued, fun _ => List.forall_mem_nil _, fun hwaits => absurd (hends.symm.trans hwaits)
      Bool.false_ne_true⟩
  | cons r' replies =>
    obtain ⟨rfl, rfl⟩ : r = r' ∧ rest = replies ++ [ready] := by simpa using hall
    have hno := hplain r List.mem_cons_self
    have hgoes : (x.after s r (replies ++ [ready])).waiting = true := by simp [ResetRun.after, hno]
    exact ⟨hshape.issued, fun hwaits => absurd (hwaits.symm.trans hgoes) Bool.false_ne_true, fun _ =>
      ⟨replies, ready, rfl, fun r' hr' => hplain r' (List.mem_cons_of_mem _ hr'), hready⟩⟩

theorem smooth_waiting (hwaiting : x.waiting = true) :
    x.smooth env w = true ↔ x.session.ignoreTillSync = false ∧ x.stalled = false := by
  cases hignore : x.session.ignoreTillSync <;> cases hprogress : x.session.inProgress <;>
    simp [ResetRun.smooth, ResetRun.stalled, hwaiting, hignore, hprogress]

theorem goes_reply (hshape : Shape env x) (hwaiting : x.waiting = true)
    (hwf : x.wellFormed env w = true) (hsmooth : x.smooth env w = true) : Goes env w x := by
  obtain ⟨hignore, hstalled⟩ := (smooth_waiting hwaiting).1 hsmooth
  cases hskip : x.session.skipReadingFromBackends with
  | true =>
    refine Or.inr ⟨{ x with session := x.session.unsetSkipReadingFromBackends }, ?_, ?_, ?_⟩
    · simp [ResetRun.next, hwaiting, hstalled, hignore, hskip]
    · exact ⟨hshape.issued, hshape.quiet, hshape.awaited⟩
    · refine .right _ ?_
      simp [ResetRun.reading, hwaiting, hskip, unsetSkipReadingFromBackends]
  | false =>
    obtain ⟨r, rest, hunread⟩ : ∃ r rest, x.unread = r :: rest := by
      obtain ⟨replies, ready, hall, -⟩ := hshape.awaited hwaiting
      cases replies with
      | nil => exact ⟨ready, [], hall⟩
      | cons r replies => exact ⟨r, replies ++ [ready], hall⟩
    simp only [ResetRun.wellFormed, hwaiting, hunread, hskip, reduceCtorEq, if_false,
      Bool.false_or] at hwf
    obtain ⟨t, h⟩ := Option.isSome_iff_exists.1 hwf
    refine Or.inr ⟨x.after t r rest, ?_, shape_after hshape hwaiting hunread, ?_⟩
    · simp [ResetRun.next, ResetRun.after, hwaiting, hstalled, hignore, hskip, hunread, h]
    · obtain hlt | heq := Nat.lt_or_eq_of_le (work_after rest h)
      · exact .left _ _ hlt
      · rw [heq]
        exact .right _ (reading_after hwaiting hunread)

theorem goes (hparse : DeallocateParses env) (hshape : Shape env x) (hwf : x.wellFormed env w = true)
    (hsmooth : x.smooth env w = true) : Goes env w x := by
  cases hwaiting : x.waiting with
  | false => exact goes_reset hparse hshape hwaiting hwf hsmooth
  | true => exact goes_reply hshape hwaiting hwf hsmooth

/-! ## A turn that is not smooth -/

/-- A query has been issued, and no ReadyForQuery will come. -/
structure Waits (x : ResetRun) : Prop where
  waiting : x.waiting = true
  never : ∀ r ∈ x.unread, r.reply.isReady = false

/-- It is waited for as long as the connections hold. -/
theorem waits_next (h : Waits x) (hwf : x.wellFormed env w = true) :
    ∃ y, x.next env w = .inl y ∧ Waits y := by
  have hwaiting := h.waiting
  by_cases hidle : x.stalled = true ∨ x.session.ignoreTillSync = true
  · refine ⟨x, ?_, h⟩
    obtain hstalled | hignore := hidle
    · simp [ResetRun.next, hwaiting, hstalled]
    · simp [ResetRun.next, hwaiting, hignore]
  · simp only [not_or, Bool.not_eq_true] at hidle
    obtain ⟨hstalled, hignore⟩ := hidle
    cases hskip : x.session.skipReadingFromBackends with
    | true =>
      refine ⟨{ x with session := x.session.unsetSkipReadingFromBackends }, ?_, hwaiting, h.never⟩
      simp [ResetRun.next, hwaiting, hstalled, hignore, hskip]
    | false =>
      cases hunread : x.unread with
      | nil =>
        refine ⟨x, ?_, h⟩
        simp [ResetRun.next, hwaiting, hstalled, hignore, hskip, hunread]
      | cons r rest =>
        simp only [ResetRun.wellFormed, hwaiting, hunread, hskip, reduceCtorEq, if_false,
          Bool.false_or] at hwf
        obtain ⟨t, ht⟩ := Option.isSome_iff_exists.1 hwf
        have hno : r.reply.isReady = false := h.never r (hunread ▸ List.mem_cons_self)
        refine ⟨x.after t r rest, ?_, ?_, fun r' hr' => ?_⟩
        · simp [ResetRun.next, ResetRun.after, hwaiting, hstalled, hignore, hskip, hunread, ht]
        · simp [ResetRun.after, hno]
        · exact h.never r' (hunread ▸ List.mem_cons_of_mem _ hr')

/-- A turn that is not smooth is one from which the loop never returns. -/
theorem never_of_not_smooth (hshape : Shape env x)
    (hwf : ∀ y, Loop.Reaches (ResetRun.next env w) x y → y.wellFormed env w = true)
    (hsmooth : x.smooth env w = false) (n : Nat) : resetLoop env w n x = none := by
  cases hwaiting : x.waiting with
  | true =>
    have hnot : ¬ (x.session.ignoreTillSync = false ∧ x.stalled = false) := by
      intro hboth
      rw [(smooth_waiting hwaiting).2 hboth] at hsmooth
      cases hsmooth
    refine Loop.run_stuck ?_ n
    cases hstalled : x.stalled with
    | true => simp [ResetRun.next, hwaiting, hstalled]
    | false =>
      have hignore : x.session.ignoreTillSync = true := by simpa [hstalled] using hnot
      simp [ResetRun.next, hwaiting, hstalled, hignore]
  | false =>
    simp only [ResetRun.smooth, hwaiting, if_true] at hsmooth
    split at hsmooth
    · next t h =>
      have hnext : x.next env w = .inl { x with
          session := t, qcnt := x.qcnt + 1, waiting := true, unread := x.unread,
          issued := x.issued ++ [x.query env] } := by
        simp [ResetRun.next, hwaiting, h, hsmooth]
      cases n with
      | zero => rfl
      | succ n =>
        rw [resetLoop, Loop.run_turn hnext]
        refine Loop.run_eq_none
          (I := fun y => Waits y ∧ Loop.Reaches (ResetRun.next env w) x y) ?_ ?_ n
        · intro y ⟨hwaits, hreach⟩
          obtain ⟨z, hz, hnever⟩ := waits_next hwaits (hwf y hreach)
          exact ⟨z, hz, hnever, .turn hreach hz⟩
        · exact ⟨⟨rfl, hshape.quiet hwaiting⟩, .turn .refl hnext⟩
    · cases hsmooth

/-! ## The run -/

/-- As long as the turns are smooth, what is reached has the shape of a run. -/
theorem shape_next (hparse : DeallocateParses env) (hshape : Shape env x)
    (hwf : x.wellFormed env w = true) (hsmooth : x.smooth env w = true) (hnext : x.next env w = .inl y) :
    Shape env y := by
  obtain ⟨z, hz, -⟩ | ⟨z, hz, hgoes, -⟩ := goes hparse hshape hwf hsmooth
  · rw [hnext] at hz
    cases hz
  · rw [hnext] at hz
    cases hz
    exact hgoes

theorem resets_of_smooth (hparse : DeallocateParses env) (hshape : Shape env x)
    (hwf : ∀ y, Loop.Reaches (ResetRun.next env w) x y → y.wellFormed env w = true)
    (hsmooth : ∀ y, Loop.Reaches (ResetRun.next env w) x y → y.smooth env w = true) :
    Resets env w x := by
  have hlex : WellFounded (Prod.Lex ((· < ·) : Nat → Nat → Prop) ((· < ·) : Nat → Nat → Prop)) :=
    WellFounded.prod_lex Nat.lt_wfRel.wf Nat.lt_wfRel.wf
  have hstep : ∀ y, Shape env y ∧ Loop.Reaches (ResetRun.next env w) x y →
      (∃ r, y.next env w = .inr r ∧ (r.1 = .continue ∧ ResetRun.Restored env r.2)) ∨
        ∃ z, y.next env w = .inl z ∧ (Shape env z ∧ Loop.Reaches (ResetRun.next env w) x z) ∧
          Prod.Lex (· < ·) (· < ·) (z.work env, z.reading) (y.work env, y.reading) := by
    intro y ⟨hy, hreach⟩
    obtain ⟨z, hz, hdone⟩ | ⟨z, hz, hgoes, hless⟩ := goes hparse hy (hwf y hreach) (hsmooth y hreach)
    · exact Or.inl ⟨_, hz, rfl, hdone⟩
    · exact Or.inr ⟨z, hz, ⟨hgoes, .turn hreach hz⟩, hless⟩
  obtain ⟨n, ⟨status, y⟩, hn, hstatus, hdone⟩ :=
    Loop.ends_of_measure hlex (fun y : ResetRun => (y.work env, y.reading)) hstep ⟨hshape, .refl⟩
  cases hstatus
  exact ⟨n, y, hn, hdone⟩

theorem smooth_of_resets (hparse : DeallocateParses env) (hshape : Shape env x)
    (hwf : ∀ y, Loop.Reaches (ResetRun.next env w) x y → y.wellFormed env w = true)
    (hresets : Resets env w x) (hreach : Loop.Reaches (ResetRun.next env w) x y) :
    y.smooth env w = true := by
  obtain ⟨n, z, hn, -⟩ := hresets
  -- the first turn that is not smooth would be the last
  have hboth : ∀ u, Loop.Reaches (ResetRun.next env w) x u → Shape env u → u.smooth env w = true := by
    intro u hu hshape
    cases hsmooth : u.smooth env w with
    | true => rfl
    | false =>
      obtain ⟨m, hm⟩ := Loop.run_of_reaches hu hn
      have hwf' : ∀ v, Loop.Reaches (ResetRun.next env w) u v → v.wellFormed env w = true :=
        fun v hv => hwf v (hu.trans hv)
      have hnever := never_of_not_smooth hshape hwf' hsmooth m
      rw [resetLoop, hm] at hnever
      cases hnever
  have hall : Shape env y := by
    clear hn
    induction hreach with
    | refl => exact hshape
    | turn hu next ih => exact shape_next hparse ih (hwf _ hu) (hboth _ hu ih) next
  exact hboth y hreach hall

/-- A DISCARD ALL, or whatever it is, is completed. -/
def quietWorld : World where
  issue := fun _ => .quiet
  replies := fun _ => [⟨.commandComplete .other .unchanged false, .quiet, false⟩]
  ready := fun _ => (.quiet, false)
  plain := by simp [Reply.isReady]

/-- A client prepares a statement and terminates. -/
def prepared : Session :=
  (Child.after .standbyPair [.connect 0 none .v3, .frontend (.parse "s" "SELECT 1") .quiet,
    .backend .parseComplete .quiet, .frontend .sync .quiet, .backend .readyForQuery .quiet,
    .disconnect true true]).session

theorem deallocateParses_standbyPair : DeallocateParses .standbyPair := by
  intro message name query h
  have htext : deallocateQuery message = "PREPARE s AS SELECT 1" := by
    simp only [Setup.statement, Setup.standbyPair, Setup.pair] at h
    unfold sampleParser at h
    split at h <;> simp_all [dummyQuery, selectOne]
  have hhead := congrArg (fun text : String => text.toList.head?) htext
  simp [deallocateQuery, String.toList_append] at hhead

/-- A Parse fails, and the client is lost before it has sent a Sync. -/
def parseFailed : Session :=
  (Child.after .standbyPair [.connect 0 none .v3, .frontend (.parse "" "SELECT 1") .quiet,
    .backend (.errorResponse false) .quiet, .disconnect false true]).session

end Reset

end PgPool
