import PgPool.Internal.Command

/-!
# Who relies on the outcome of a command

`start_internal_transaction`, `insert_lock` and `end_internal_transaction` send BEGIN, LOCK TABLE and
COMMIT to several nodes by `do_command`, and go on to the next one as long as that returns
`POOL_CONTINUE`.
-/

namespace PgPool.Internal

variable {major : Proto}

/-! ## The source -/

/-- A node, and how it answers to the command if it is sent. -/
structure InternalNode (major : Proto) where
  /-- `VALID_BACKEND`. -/
  valid : Bool
  /-- `INTERNAL_TRANSACTION_STARTED`. -/
  started : Bool
  tstate : UInt8
  reply : Reply major
  /-- What comes behind the reply. -/
  rest : List (Item major)

def InternalNode.command (noReadyForQuery : Bool) (node : InternalNode major) :
    Option (CommandStatus × Conn major) :=
  doCommand noReadyForQuery ⟨node.tstate, node.reply.items ++ node.rest⟩

/-- A run of one of the functions: the replies to the commands that have been sent, and whether it
goes on to what comes after them. -/
structure Run (major : Proto) where
  sent : List (Reply major)
  goesOn : Bool

/-- The loop of `start_internal_transaction`, with the nodes afterwards. -/
def startInternalLoop : List (InternalNode major) → List (InternalNode major) × Run major
  | [] => ([], ⟨[], true⟩)
  | node :: rest =>
    if node.valid ∧ ¬ node.started ∧ node.tstate = 73 then
      match node.command false with
      | some (.continue, conn) =>
        let (nodes, run) := startInternalLoop rest
        ({ node with started := true, tstate := conn.tstate } :: nodes,
          ⟨node.reply :: run.sent, run.goesOn⟩)
      | _ => (node :: rest, ⟨[node.reply], false⟩)
    else
      let (nodes, run) := startInternalLoop rest
      (node :: nodes, run)

/-- `start_internal_transaction`. -/
def startInternalTransaction (needed : Bool) (nodes : List (InternalNode major)) :
    List (InternalNode major) × Run major :=
  if needed then startInternalLoop nodes else (nodes, ⟨[], true⟩)

/-- The COMMITs of `end_internal_transaction`.  The rest of the ReadyForQuery before has been skipped. -/
def endInternalLoop : List (InternalNode major) → List (InternalNode major) × Run major
  | [] => ([], ⟨[], true⟩)
  | node :: rest =>
    if node.valid ∧ node.tstate ≠ 73 ∧ node.started then
      match node.command true with
      | some (.continue, conn) =>
        let (nodes, run) := endInternalLoop rest
        ({ node with started := false, tstate := conn.tstate } :: nodes,
          ⟨node.reply :: run.sent, run.goesOn⟩)
      | _ => ({ node with started := false } :: rest, ⟨[node.reply], false⟩)
    else
      let (nodes, run) := endInternalLoop rest
      (node :: nodes, run)

/-- `end_internal_transaction`: the master commits last, and is not tested for `VALID_BACKEND`. -/
def endInternalTransaction (others : List (InternalNode major)) (master : InternalNode major) :
    List (InternalNode major) × Run major :=
  endInternalLoop (others ++ [{ master with valid := true }])

/-- A node that is to be locked: how it answers to LOCK TABLE, and to the query that fails. -/
structure LockNode where
  tstate : UInt8
  reply : Reply .v3
  errorReply : Reply .v3
  rest : List (Item .v3)

def LockNode.command (node : LockNode) : Option (CommandStatus × Conn .v3) :=
  doCommand false ⟨node.tstate, node.reply.items ++ node.rest⟩

/-- The loop over the other nodes after the master has been locked. -/
def lockOthers : List LockNode → Run .v3
  | [] => ⟨[], true⟩
  | node :: rest =>
    match node.command with
    | some (.continue, _) => ⟨node.reply :: (lockOthers rest).sent, (lockOthers rest).goesOn⟩
    | _ => ⟨[node.reply], false⟩

/-- The loop over the other nodes after a deadlock: their transactions are aborted. -/
def abortOthers : List LockNode → Bool
  | [] => true
  | node :: rest =>
    match doCommand false ⟨node.tstate, node.errorReply.items ++ node.rest⟩ with
    | some (.continue, _) => abortOthers rest
    | _ => false

/-- How `insert_lock` ends: all nodes have been locked, or after a deadlock on the master the others
have been aborted; both return `POOL_CONTINUE`. -/
inductive LockEnd where
  | locked | aborted | stop
  deriving DecidableEq

/-- `insert_lock` in protocol V3, from where LOCK TABLE is sent to the master.  Row locks are taken by
`do_query`. -/
def insertLock (master : LockNode) (others : List LockNode) : LockEnd × List (Reply .v3) :=
  match master.command with
  | some (.continue, _) =>
    let run := lockOthers others
    (if run.goesOn then .locked else .stop, master.reply :: run.sent)
  | some (.deadlock, _) => (if abortOthers others then .aborted else .stop, [master.reply])
  | _ => (.stop, [master.reply])

/-! ## What is claimed -/

/-- After a command that has failed nothing is sent, and the function does not go on. -/
structure Rightly (run : Run major) : Prop where
  before : ∀ reply ∈ run.sent.dropLast, reply.Completes
  all : run.goesOn = true → ∀ reply ∈ run.sent, reply.Completes

/-- The part of `insert_lock` that treats the nodes as locked. -/
def lockRun (result : LockEnd × List (Reply .v3)) : Run .v3 := ⟨result.2, result.1 == .locked⟩

/-! ## The condition -/

/-- The first command that fails, if any, is noticed to have failed. -/
def NoticedFirst (noReadyForQuery : Bool) : List (Reply major) → Prop
  | [] => True
  | reply :: rest =>
    (reply.Completes → NoticedFirst noReadyForQuery rest) ∧
      (¬ reply.Completes → reply.Noticed noReadyForQuery)

/-- The replies of the nodes on which a transaction is started. -/
def beginReplies (nodes : List (InternalNode major)) : List (Reply major) :=
  (nodes.filter fun node => node.valid && !node.started && node.tstate == 73).map (·.reply)

/-- The replies of the nodes on which one is ended. -/
def commitReplies (nodes : List (InternalNode major)) : List (Reply major) :=
  (nodes.filter fun node => node.valid && node.tstate != 73 && node.started).map (·.reply)

/-! ## Whether it goes on -/

variable {noReadyForQuery : Bool} {reply : Reply major} {rest : List (Item major)} {tstate : UInt8}
  {replies : List (Reply major)}

/-- Only a command that completes, or an error that is not noticed, lets the function go on. -/
theorem doCommand_continue_iff :
    (∃ conn, doCommand noReadyForQuery ⟨tstate, reply.items ++ rest⟩ = some (.continue, conn)) ↔
      reply.Completes ∨ ¬ reply.Noticed noReadyForQuery := by
  obtain hkind | hkind := reply.kind_result
  · exact iff_of_true ⟨_, doCommand_completes hkind⟩ (.inl hkind)
  · have hfails : ¬ reply.Completes := by
      intro h
      exact absurd (h.symm.trans hkind) (by decide)
    rw [or_iff_right hfails]
    unfold Reply.Noticed
    by_cases hlong : reply.Long
    · rw [doCommand_long hkind hlong]
      cases noReadyForQuery <;> simp [hlong]
    · cases hfatal : isFatal reply.result with
      | true =>
        rw [doCommand_fatal hkind hlong hfatal]
        simp [hlong]
      | false =>
        have herror : ∃ status, doCommand noReadyForQuery ⟨tstate, reply.items ++ rest⟩ =
            some (status, readReady noReadyForQuery reply.status tstate rest) ∧ status ≠ .stop ∧
              (status = .deadlock ↔ noReadyForQuery = false ∧ reply.DeadlockFirst) :=
          doCommand_error hkind hlong hfatal
        obtain ⟨status, hstatus, hgoes, hdeadlock⟩ := herror
        rw [hstatus]
        cases status with
        | stop => exact absurd rfl hgoes
        | «continue» => simpa [hlong] using hdeadlock
        | deadlock => simpa [hlong] using hdeadlock

/-- How many commands are sent, by their replies. -/
inductive Sends (noReadyForQuery : Bool) : List (Reply major) → Run major → Prop
  | nil : Sends noReadyForQuery [] ⟨[], true⟩
  | next {r : Reply major} {rs : List (Reply major)} {run : Run major}
      (h : r.Completes ∨ ¬ r.Noticed noReadyForQuery) (tail : Sends noReadyForQuery rs run) :
      Sends noReadyForQuery (r :: rs) ⟨r :: run.sent, run.goesOn⟩
  | last {r : Reply major} {rs : List (Reply major)} (h : ¬ r.Completes)
      (h' : r.Noticed noReadyForQuery) : Sends noReadyForQuery (r :: rs) ⟨[r], false⟩

theorem Sends.goesOn_of_nil {run : Run major} (h : Sends noReadyForQuery replies run)
    (hsent : run.sent = []) : run.goesOn = true := by
  cases h with
  | nil => rfl
  | next h tail => cases hsent
  | last h h' => cases hsent

/-- A reply that completes in front does not matter. -/
theorem rightly_cons_iff {run : Run major} {reply : Reply major} (hcompletes : reply.Completes) :
    Rightly ⟨reply :: run.sent, run.goesOn⟩ ↔ Rightly run := by
  constructor
  · intro hright
    refine ⟨fun other hother => ?_, fun hgoes other hother =>
      hright.all hgoes other (List.mem_cons_of_mem _ hother)⟩
    have hne : run.sent ≠ [] := List.ne_nil_of_mem (List.dropLast_subset _ hother)
    refine hright.before other ?_
    change other ∈ (reply :: run.sent).dropLast
    rw [List.dropLast_cons_of_ne_nil hne]
    exact List.mem_cons_of_mem _ hother
  · intro hright
    refine ⟨fun other hother => ?_, fun hgoes other hother => ?_⟩
    · change other ∈ (reply :: run.sent).dropLast at hother
      by_cases hne : run.sent = []
      · rw [hne] at hother
        cases hother
      · rw [List.dropLast_cons_of_ne_nil hne] at hother
        obtain rfl | hother := List.mem_cons.mp hother
        · exact hcompletes
        · exact hright.before other hother
    · obtain rfl | hother := List.mem_cons.mp hother
      · exact hcompletes
      · exact hright.all hgoes other hother

/-- One that does not is not passed over. -/
theorem not_rightly_cons {run : Run major} {reply : Reply major} (hfails : ¬ reply.Completes)
    (hgoes : run.sent = [] → run.goesOn = true) : ¬ Rightly ⟨reply :: run.sent, run.goesOn⟩ := by
  intro hright
  by_cases hsent : run.sent = []
  · exact hfails (hright.all (hgoes hsent) reply List.mem_cons_self)
  · refine hfails (hright.before reply ?_)
    change reply ∈ (reply :: run.sent).dropLast
    rw [List.dropLast_cons_of_ne_nil hsent]
    exact List.mem_cons_self

theorem rightly_iff {run : Run major} (h : Sends noReadyForQuery replies run) :
    Rightly run ↔ NoticedFirst noReadyForQuery replies := by
  induction h with
  | nil => exact iff_of_true ⟨by simp, by simp⟩ trivial
  | @next reply replies run h tail ih =>
    by_cases hcompletes : reply.Completes
    · have hfirst : NoticedFirst noReadyForQuery (reply :: replies) ↔
          NoticedFirst noReadyForQuery replies :=
        ⟨fun h => h.1 hcompletes, fun h => ⟨fun _ => h, fun hfails => absurd hcompletes hfails⟩⟩
      rw [rightly_cons_iff hcompletes, ih, hfirst]
    · refine iff_of_false (not_rightly_cons hcompletes tail.goesOn_of_nil) fun hfirst => ?_
      exact h.elim hcompletes fun hmissed => hmissed (hfirst.2 hcompletes)
  | last h h' => exact iff_of_true ⟨by simp, by simp⟩ ⟨fun hc => absurd hc h, fun _ => h'⟩

theorem command_continue_iff (node : InternalNode major) :
    (∃ conn, node.command noReadyForQuery = some (.continue, conn)) ↔
      node.reply.Completes ∨ ¬ node.reply.Noticed noReadyForQuery := doCommand_continue_iff

/-- What a command that does not return `POOL_CONTINUE` was. -/
theorem noticed_of_command {node : InternalNode major}
    (h : ∀ conn, node.command noReadyForQuery ≠ some (.continue, conn)) :
    ¬ node.reply.Completes ∧ node.reply.Noticed noReadyForQuery := by
  have hnot := mt (command_continue_iff node).mpr fun ⟨conn, hconn⟩ => h conn hconn
  rwa [not_or, not_not] at hnot

theorem sends_startInternalLoop (nodes : List (InternalNode major)) :
    Sends false (beginReplies nodes) (startInternalLoop nodes).2 := by
  induction nodes with
  | nil => exact .nil
  | cons node nodes ih =>
    unfold startInternalLoop
    by_cases hasked : node.valid = true ∧ ¬ node.started = true ∧ node.tstate = 73
    · have hreplies : beginReplies (node :: nodes) = node.reply :: beginReplies nodes := by
        simp [beginReplies, hasked]
      rw [if_pos hasked, hreplies]
      split
      · rename_i conn hcommand
        exact .next ((command_continue_iff node).mp ⟨conn, hcommand⟩) ih
      · rename_i hstop
        obtain ⟨hfails, hnoticed⟩ := noticed_of_command hstop
        exact .last hfails hnoticed
    · have hreplies : beginReplies (node :: nodes) = beginReplies nodes := by
        unfold beginReplies
        rw [List.filter_cons_of_neg (by simpa [and_assoc] using hasked)]
      rw [if_neg hasked, hreplies]
      exact ih

theorem sends_endInternalLoop (nodes : List (InternalNode major)) :
    Sends true (commitReplies nodes) (endInternalLoop nodes).2 := by
  induction nodes with
  | nil => exact .nil
  | cons node nodes ih =>
    unfold endInternalLoop
    by_cases hasked : node.valid = true ∧ node.tstate ≠ 73 ∧ node.started = true
    · have hreplies : commitReplies (node :: nodes) = node.reply :: commitReplies nodes := by
        simp [commitReplies, hasked]
      rw [if_pos hasked, hreplies]
      split
      · rename_i conn hcommand
        exact .next ((command_continue_iff node).mp ⟨conn, hcommand⟩) ih
      · rename_i hstop
        obtain ⟨hfails, hnoticed⟩ := noticed_of_command hstop
        exact .last hfails hnoticed
    · have hreplies : commitReplies (node :: nodes) = commitReplies nodes := by
        unfold commitReplies
        rw [List.filter_cons_of_neg (by simpa [and_assoc] using hasked)]
      rw [if_neg hasked, hreplies]
      exact ih

theorem lock_continue_iff (node : LockNode) :
    (∃ conn, node.command = some (.continue, conn)) ↔
      node.reply.Completes ∨ ¬ node.reply.Noticed false := doCommand_continue_iff

theorem noticed_of_lock {node : LockNode} (h : ∀ conn, node.command ≠ some (.continue, conn)) :
    ¬ node.reply.Completes ∧ node.reply.Noticed false := by
  have hnot := mt (lock_continue_iff node).mpr fun ⟨conn, hconn⟩ => h conn hconn
  rwa [not_or, not_not] at hnot

theorem sends_lockOthers (nodes : List LockNode) :
    Sends false (nodes.map (·.reply)) (lockOthers nodes) := by
  induction nodes with
  | nil => exact .nil
  | cons node nodes ih =>
    unfold lockOthers
    rw [List.map_cons]
    split
    · rename_i conn hcommand
      exact .next ((lock_continue_iff node).mp ⟨conn, hcommand⟩) ih
    · rename_i hstop
      obtain ⟨hfails, hnoticed⟩ := noticed_of_lock hstop
      exact .last hfails hnoticed

theorem sends_insertLock (master : LockNode) (others : List LockNode) :
    Sends false ((master :: others).map (·.reply)) (lockRun (insertLock master others)) := by
  unfold insertLock
  rw [List.map_cons]
  split
  · rename_i conn hcommand
    have hrun : lockRun (if (lockOthers others).goesOn = true then .locked else .stop,
        master.reply :: (lockOthers others).sent) =
          ⟨master.reply :: (lockOthers others).sent, (lockOthers others).goesOn⟩ := by
      unfold lockRun
      cases (lockOthers others).goesOn <;> rfl
    simp only [hrun]
    exact .next ((lock_continue_iff master).mp ⟨conn, hcommand⟩) (sends_lockOthers others)
  · rename_i conn hcommand
    have hstop : ∀ conn, master.command ≠ some (.continue, conn) := by simp [hcommand]
    obtain ⟨hfails, hnoticed⟩ := noticed_of_lock hstop
    have hrun : lockRun (if abortOthers others = true then .aborted else .stop, [master.reply]) =
        ⟨[master.reply], false⟩ := by
      unfold lockRun
      cases abortOthers others <;> rfl
    rw [hrun]
    exact .last hfails hnoticed
  · rename_i hstop _
    obtain ⟨hfails, hnoticed⟩ := noticed_of_lock hstop
    exact .last hfails hnoticed

/-! ## The outcome -/

/-- Once ReadyForQuery has been dealt with only the status can be wrong. -/
theorem correct_readReady_iff {status : CommandStatus} :
    Correct noReadyForQuery reply rest status (readReady noReadyForQuery reply.status tstate rest) ↔
      (status = .continue → reply.Completes) ∧ (status = .deadlock ↔ isDeadlock reply.result = true) :=
  ⟨fun h => ⟨h.continues, h.deadlock⟩, fun h =>
    ⟨stream_readReady noReadyForQuery reply _ _, fun hread hmajor => tstate_readReady hread hmajor,
      h.1, h.2⟩⟩

theorem exists_correct_iff {status : CommandStatus} {conn : Conn major}
    {result : Option (CommandStatus × Conn major)}
    (h : result = some (status, conn)) :
    (∃ status' conn', result = some (status', conn') ∧ Correct noReadyForQuery reply rest status' conn') ↔
      Correct noReadyForQuery reply rest status conn := by
  subst h
  constructor
  · rintro ⟨status', conn', heq, hcorrect⟩
    obtain ⟨rfl, rfl⟩ := Prod.mk.inj (Option.some.inj heq)
    exact hcorrect
  · intro hcorrect
    exact ⟨_, _, rfl, hcorrect⟩

/-- After a fatal error the rest of the reply is left. -/
theorem not_correct_stop :
    ¬ Correct noReadyForQuery reply rest .stop
      ⟨tstate, reply.after.map .message ++ [.ready reply.status] ++ rest⟩ := by
  intro hcorrect
  have hsame := List.append_cancel_right hcorrect.consumed
  have hready : Item.ready reply.status ∈ leftOver noReadyForQuery reply := by
    rw [← hsame]
    simp
  unfold leftOver at hready
  split at hready
  · simp at hready
  · cases hready

theorem doCommand_correct_iff :
    (∃ status conn, doCommand noReadyForQuery ⟨tstate, reply.items ++ rest⟩ = some (status, conn) ∧
      Correct noReadyForQuery reply rest status conn) ↔ reply.Understood noReadyForQuery := by
  obtain hkind | hkind := reply.kind_result
  · rw [exists_correct_iff (doCommand_completes hkind), correct_readReady_iff]
    have hnot : isDeadlock reply.result = false := by simp [isDeadlock, hkind]
    exact iff_of_true ⟨fun _ => hkind, by simp [hnot]⟩ (.inl hkind)
  · have hfails : ¬ reply.Completes := by
      intro h
      exact absurd (h.symm.trans hkind) (by decide)
    unfold Reply.Understood
    rw [or_iff_right hfails]
    by_cases hlong : reply.Long
    · rw [exists_correct_iff (doCommand_long hkind hlong), correct_readReady_iff]
      constructor
      · rintro ⟨hcontinues, hdeadlock⟩
        cases noReadyForQuery with
        | true => exact absurd (hcontinues rfl) hfails
        | false => exact ⟨rfl, ⟨hlong.1, hdeadlock.mp rfl⟩, .inl hlong⟩
      · rintro ⟨hread, hfirst, _⟩
        simp [hread, hfirst.2]
    · cases hfatal : isFatal reply.result with
      | true =>
        rw [exists_correct_iff (doCommand_fatal hkind hlong hfatal)]
        exact iff_of_false not_correct_stop (by simp [hlong])
      | false =>
        have herror : ∃ status, doCommand noReadyForQuery ⟨tstate, reply.items ++ rest⟩ =
            some (status, readReady noReadyForQuery reply.status tstate rest) ∧ status ≠ .stop ∧
              (status = .deadlock ↔ noReadyForQuery = false ∧ reply.DeadlockFirst) :=
          doCommand_error hkind hlong hfatal
        obtain ⟨status, hstatus, hgoes, hdeadlock⟩ := herror
        rw [exists_correct_iff hstatus, correct_readReady_iff]
        constructor
        · rintro ⟨hcontinues, _⟩
          have hdead : status = .deadlock := by
            cases status with
            | stop => exact absurd rfl hgoes
            | «continue» => exact absurd (hcontinues rfl) hfails
            | deadlock => rfl
          obtain ⟨hread, hfirst⟩ := hdeadlock.mp hdead
          exact ⟨hread, hfirst, .inr rfl⟩
        · rintro ⟨hread, hfirst, _⟩
          have hdead := hdeadlock.mpr ⟨hread, hfirst⟩
          simp [hdead, hfirst.2]

/-- **The outcome of a command** is told rightly exactly if the command completes, or if its reply begins
with a deadlock error, and ReadyForQuery is to be read.  The functions that send commands to several
nodes do not pass over a failure exactly if the first one is noticed: it is fatal, or, where
ReadyForQuery is read, a deadlock error that comes first, or an error too long to be looked at. -/
theorem commandOutcome_iff (major : Proto) :
    (∀ (noReadyForQuery : Bool) (reply : Reply major) (tstate : UInt8) (rest : List (Item major)),
      (∃ status conn, doCommand noReadyForQuery ⟨tstate, reply.items ++ rest⟩ = some (status, conn) ∧
        Correct noReadyForQuery reply rest status conn) ↔ reply.Understood noReadyForQuery) ∧
    (∀ (needed : Bool) (nodes : List (InternalNode major)),
      Rightly (startInternalTransaction needed nodes).2 ↔
        (needed = true → NoticedFirst false (beginReplies nodes))) ∧
    (∀ (others : List (InternalNode major)) (master : InternalNode major),
      Rightly (endInternalTransaction others master).2 ↔
        NoticedFirst true (commitReplies (others ++ [{ master with valid := true }]))) ∧
    ∀ (master : LockNode) (others : List LockNode), Rightly (lockRun (insertLock master others)) ↔
      NoticedFirst false ((master :: others).map (·.reply)) := by
  refine ⟨fun _ _ _ _ => doCommand_correct_iff, ?_, ?_, ?_⟩
  · intro needed nodes
    cases needed with
    | true =>
      exact (rightly_iff (sends_startInternalLoop nodes)).trans ⟨fun h _ => h, fun h => h rfl⟩
    | false => exact iff_of_true ⟨nofun, nofun⟩ nofun
  · intro others master
    exact rightly_iff (sends_endInternalLoop _)
  · intro master others
    exact rightly_iff (sends_insertLock master others)

/-- A reply that is just an error, with the code 42601. -/
def plainError : Reply .v3 where
  before := []
  result := ⟨69, [67, 52, 50, 54, 48, 49, 0, 0], by decide⟩
  after := []
  status := 69
  kind_before := nofun
  kind_result := .inr rfl
  kind_after := nofun

/-- A node on which BEGIN fails. -/
def failingBegin : InternalNode .v3 := ⟨true, false, 73, plainError, []⟩

theorem not_correct_plainError :
    (¬ ∀ (major : Proto) (noReadyForQuery : Bool) (reply : Reply major) (tstate : UInt8)
        (rest : List (Item major)), ∃ status conn,
      doCommand noReadyForQuery ⟨tstate, reply.items ++ rest⟩ = some (status, conn) ∧
        Correct noReadyForQuery reply rest status conn) ∧
    ¬ ∀ (major : Proto) (needed : Bool) (nodes : List (InternalNode major)),
      Rightly (startInternalTransaction needed nodes).2 := by
  have hcommand : doCommand false ⟨73, plainError.items ++ []⟩ = some (.continue, ⟨69, []⟩) := by
    rfl
  have hfails : ¬ plainError.Completes := by decide
  refine ⟨fun h => ?_, fun h => ?_⟩
  · obtain ⟨status, conn, heq, hcorrect⟩ := h .v3 false plainError 73 []
    rw [hcommand] at heq
    obtain ⟨rfl, rfl⟩ := Prod.mk.inj (Option.some.inj heq)
    exact hfails (hcorrect.continues rfl)
  · have hright := h .v3 true [failingBegin]
    have hrun : (startInternalTransaction true [failingBegin]).2 = ⟨[plainError], true⟩ := by
      rfl
    rw [hrun] at hright
    exact hfails (hright.all rfl plainError List.mem_cons_self)

end PgPool.Internal
