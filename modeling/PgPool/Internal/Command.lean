import PgPool.Relay.Forward
import PgPool.Stream.Backend

/-!
# Commands of pgpool's own

`do_command` for both protocols, one message at a time: the reply to a command is looked at for a
deadlock error, and then read up to its ReadyForQuery.
-/

namespace PgPool.Internal

variable {major : Proto}

/-! ## Replies -/

/-- What a backend sends.  The body of ReadyForQuery, which only protocol V3 has, may be left over. -/
inductive Item (major : Proto) where
  | message (m : BackendMessage major)
  | ready (status : UInt8)
  | readyRest (status : UInt8)

/-- A reply to a command: CommandComplete (67) or ErrorResponse (69), with notices (78) and parameter
statuses (83) anywhere before ReadyForQuery. -/
structure Reply (major : Proto) where
  before : List (BackendMessage major)
  result : BackendMessage major
  after : List (BackendMessage major)
  status : UInt8
  kind_before : ∀ m ∈ before, m.kind = 78 ∨ m.kind = 83
  kind_result : result.kind = 67 ∨ result.kind = 69
  kind_after : ∀ m ∈ after, m.kind = 78 ∨ m.kind = 83

namespace Reply

def items (reply : Reply major) : List (Item major) :=
  reply.before.map .message ++ .message reply.result :: (reply.after.map .message ++ [.ready reply.status])

/-- The command has completed. -/
def Completes (reply : Reply major) : Prop := reply.result.kind = 67

instance (reply : Reply major) : Decidable reply.Completes := inferInstanceAs (Decidable (_ = _))

end Reply

/-! ## The source -/

/-- `DEADLOCK_ERROR_CODE`: 40P01. -/
def deadlockErrorCode : List UInt8 := [52, 48, 80, 48, 49]

/-- A message has the code of a deadlock.  Protocol V2 has no codes. -/
def isDeadlock (m : BackendMessage major) : Bool :=
  decide (m.kind = 69) && decide (major = .v3) &&
    decide (findField 67 true m.contents = some deadlockErrorCode)

/-- `is_panic_or_fatal_error`. -/
def isFatal (m : BackendMessage major) : Bool :=
  match major with
  | .v3 => isPanicOrFatalError true m.contents
  | .v2 => [80, 65, 78, 73, 67].isPrefixOf m.contents || [70, 65, 84, 65, 76].isPrefixOf m.contents

/-- `detect_deadlock_error`.  A message that does not fit into the buffer is not put back; what is
returned then, `POOL_END`, is not negative. -/
def detectDeadlockError : List (Item major) → Option (DetectResult × List (Item major))
  | [] => none
  | .message m :: rest =>
    if m.kind = 69 ∧ peekBufSz ≤ m.bytes.length then some (.poolEnd, rest)
    else if isDeadlock m then some (.specifiedError, .message m :: rest)
    else some (.noError, .message m :: rest)
  | item :: rest => some (.noError, item :: rest)

/-- The state that a command tag of protocol V2 tells: T after BEGIN, I after COMMIT or ROLLBACK. -/
def tagState (string : List UInt8) (tstate : UInt8) : UInt8 :=
  let tstate := if [66, 69, 71, 73, 78].isPrefixOf string then 84 else tstate
  if [67, 79, 77, 77, 73, 84].isPrefixOf string || [82, 79, 76, 76, 66, 65, 67, 75].isPrefixOf string
  then 73 else tstate

/-- The loop: the state in ReadyForQuery, if it comes to that, the state of the connection, and what is
left.  `none`: it waits. -/
def commandLoop : List (Item major) → UInt8 → Option (Option UInt8 × UInt8 × List (Item major))
  | [], _ => none
  | .ready status :: rest, tstate => some (some status, tstate, rest)
  | .readyRest _ :: rest, tstate => some (none, tstate, rest)
  | .message m :: rest, tstate =>
    if major = .v3 ∧ m.kind ≠ 78 ∧ m.kind ≠ 69 ∧ m.kind ≠ 83 ∧ m.kind ≠ 67 then some (none, tstate, rest)
    else
      let tstate := if major = .v2 ∧ m.kind = 67 then tagState m.contents tstate else tstate
      if m.kind = 69 ∧ isFatal m then some (none, tstate, rest) else commandLoop rest tstate

/-- What `do_command` returns; `stop` is `POOL_END`. -/
inductive CommandStatus where
  | continue | stop | deadlock
  deriving DecidableEq, Repr

/-- A connection: its `tstate`, and what comes. -/
structure Conn (major : Proto) where
  tstate : UInt8
  stream : List (Item major)

/-- After ReadyForQuery: unless its body is left, the state is recorded in protocol V3. -/
def readReady (noReadyForQuery : Bool) (status tstate : UInt8) (rest : List (Item major)) : Conn major :=
  match major with
  | .v3 => if noReadyForQuery then ⟨tstate, .readyRest status :: rest⟩ else ⟨status, rest⟩
  | .v2 => ⟨tstate, rest⟩

/-- `do_command` after the command has been sent. -/
def doCommand (noReadyForQuery : Bool) (conn : Conn major) : Option (CommandStatus × Conn major) :=
  match detectDeadlockError conn.stream with
  | none => none
  | some (deadlockDetected, stream) =>
    match commandLoop stream conn.tstate with
    | none => none
    | some (none, tstate, rest) => some (.stop, ⟨tstate, rest⟩)
    | some (some status, tstate, rest) =>
      let conn := readReady noReadyForQuery status tstate rest
      if noReadyForQuery then some (.continue, conn)
      else some (if deadlockDetected = .noError then .continue else .deadlock, conn)

/-! ## What is claimed -/

/-- What is left of the reply to a command: the body of ReadyForQuery if that is not to be read. -/
def leftOver (noReadyForQuery : Bool) (reply : Reply major) : List (Item major) :=
  if noReadyForQuery ∧ major = .v3 then [.readyRest reply.status] else []

/-- The reply is consumed and its state recorded, and the status tells what it was. -/
structure Correct (noReadyForQuery : Bool) (reply : Reply major) (rest : List (Item major))
    (status : CommandStatus) (conn : Conn major) : Prop where
  consumed : conn.stream = leftOver noReadyForQuery reply ++ rest
  recorded : noReadyForQuery = false → major = .v3 → conn.tstate = reply.status
  continues : status = .continue → reply.Completes
  deadlock : status = .deadlock ↔ isDeadlock reply.result = true

/-! ## The condition -/

namespace Reply

/-- The error is the first message, and too long for the buffer of `detect_error`. -/
def Long (reply : Reply major) : Prop := reply.before = [] ∧ peekBufSz ≤ reply.result.bytes.length

/-- The error is the first message, and a deadlock. -/
def DeadlockFirst (reply : Reply major) : Prop := reply.before = [] ∧ isDeadlock reply.result = true

/-- An error is noticed: it makes the function return something else than `POOL_CONTINUE`. -/
def Noticed (noReadyForQuery : Bool) (reply : Reply major) : Prop :=
  reply.Long ∧ noReadyForQuery = false ∨
    ¬ reply.Long ∧ (isFatal reply.result = true ∨ noReadyForQuery = false ∧ reply.DeadlockFirst)

/-- The command completes, or the reply begins with a deadlock error, whose severity is not FATAL or
PANIC unless it is too long to be looked at, and ReadyForQuery is to be read. -/
def Understood (noReadyForQuery : Bool) (reply : Reply major) : Prop :=
  reply.Completes ∨ noReadyForQuery = false ∧ reply.DeadlockFirst ∧
    (reply.Long ∨ isFatal reply.result = false)

end Reply

/-! ## Reading a reply -/

variable {noReadyForQuery : Bool} {reply : Reply major} {rest : List (Item major)} {tstate : UInt8}
  {messages : List (BackendMessage major)}

theorem commandLoop_skip (h : ∀ m ∈ messages, m.kind = 78 ∨ m.kind = 83) :
    commandLoop (messages.map .message ++ rest) tstate = commandLoop rest tstate := by
  induction messages with
  | nil => rfl
  | cons m messages ih =>
    have htail := ih fun m hm => h m (List.mem_cons_of_mem _ hm)
    rw [List.map_cons, List.cons_append, commandLoop]
    obtain hkind | hkind := h m List.mem_cons_self
    · simpa [hkind] using htail
    · simpa [hkind] using htail

/-- What follows the result is read. -/
theorem commandLoop_after (reply : Reply major) (rest : List (Item major)) (tstate : UInt8) :
    commandLoop (reply.after.map .message ++ [.ready reply.status] ++ rest) tstate =
      some (some reply.status, tstate, rest) := by
  rw [List.append_assoc, commandLoop_skip reply.kind_after]
  rfl

/-- The state that the result tells. -/
def resultState (reply : Reply major) (tstate : UInt8) : UInt8 :=
  if major = .v2 ∧ reply.result.kind = 67 then tagState reply.result.contents tstate else tstate

/-- The reply is read to its end, unless there is a fatal error. -/
theorem commandLoop_items (hfatal : ¬ (reply.result.kind = 69 ∧ isFatal reply.result = true)) :
    commandLoop (reply.items ++ rest) tstate =
      some (some reply.status, resultState reply tstate, rest) := by
  unfold Reply.items
  rw [List.append_assoc, commandLoop_skip reply.kind_before, List.cons_append, commandLoop,
    if_neg (by intro ⟨_, _, h69, _, h67⟩; exact reply.kind_result.elim h67 h69)]
  simp only [if_neg hfatal]
  exact commandLoop_after reply rest _

theorem commandLoop_fatal (hkind : reply.result.kind = 69) (hfatal : isFatal reply.result = true) :
    commandLoop (reply.items ++ rest) tstate =
      some (none, tstate, reply.after.map .message ++ [.ready reply.status] ++ rest) := by
  have hsame : ¬ (major = .v2 ∧ reply.result.kind = 67) := by
    rw [hkind]
    simp
  unfold Reply.items
  rw [List.append_assoc, commandLoop_skip reply.kind_before, List.cons_append, commandLoop,
    if_neg (by intro ⟨_, _, h69, _⟩; exact h69 hkind)]
  simp only [if_neg hsame, if_pos (And.intro hkind hfatal)]

variable (rest) in
/-- Nothing is put aside unless the error comes first and is long. -/
theorem detectDeadlockError_items (hlong : ¬ (reply.result.kind = 69 ∧ reply.Long)) :
    ∃ detected, detectDeadlockError (reply.items ++ rest) = some (detected, reply.items ++ rest) ∧
      (detected = .noError ↔ ¬ reply.DeadlockFirst) := by
  unfold Reply.items
  cases hbefore : reply.before with
  | nil =>
    have hfits : ¬ (reply.result.kind = 69 ∧ peekBufSz ≤ reply.result.bytes.length) :=
      fun h => hlong ⟨h.1, hbefore, h.2⟩
    simp only [List.map_nil, List.nil_append, List.cons_append, detectDeadlockError, if_neg hfits]
    by_cases hdeadlock : isDeadlock reply.result = true
    · rw [if_pos hdeadlock]
      exact ⟨_, rfl, iff_of_false (by simp) (not_not.mpr ⟨hbefore, hdeadlock⟩)⟩
    · rw [if_neg hdeadlock]
      exact ⟨_, rfl, iff_of_true rfl fun h => hdeadlock h.2⟩
  | cons m before =>
    have hother : m.kind ≠ 69 := by
      intro hkind
      have := reply.kind_before m (by rw [hbefore]; exact List.mem_cons_self)
      rw [hkind] at this
      simp at this
    have hnone : isDeadlock m = false := by simp [isDeadlock, hother]
    have hfits : ¬ (m.kind = 69 ∧ peekBufSz ≤ m.bytes.length) := fun h => hother h.1
    simp only [List.map_cons, List.cons_append, detectDeadlockError, if_neg hfits, hnone]
    exact ⟨_, rfl, iff_of_true rfl fun h => by simp [Reply.DeadlockFirst, hbefore] at h⟩

theorem detectDeadlockError_long (hkind : reply.result.kind = 69) (hlong : reply.Long) :
    detectDeadlockError (reply.items ++ rest) =
      some (.poolEnd, reply.after.map .message ++ [.ready reply.status] ++ rest) := by
  unfold Reply.items
  rw [hlong.1]
  simp only [List.map_nil, List.nil_append, List.cons_append, detectDeadlockError]
  rw [if_pos ⟨hkind, hlong.2⟩]

/-! ## The four kinds of replies -/

theorem stream_readReady (noReadyForQuery : Bool) (reply : Reply major) (tstate : UInt8)
    (rest : List (Item major)) :
    (readReady noReadyForQuery reply.status tstate rest).stream =
      leftOver noReadyForQuery reply ++ rest := by
  unfold readReady leftOver
  cases major with
  | v3 => cases noReadyForQuery <;> simp
  | v2 => simp

theorem tstate_readReady (hread : noReadyForQuery = false) (hmajor : major = .v3) :
    (readReady noReadyForQuery reply.status tstate rest).tstate = reply.status := by
  subst hread hmajor
  rfl

theorem doCommand_completes (h : reply.Completes) :
    doCommand noReadyForQuery ⟨tstate, reply.items ++ rest⟩ = some (.continue,
      readReady noReadyForQuery reply.status (resultState reply tstate) rest) := by
  have hkind : reply.result.kind ≠ 69 := by
    intro h'
    exact absurd (h.symm.trans h') (by decide)
  obtain ⟨detected, hdetect, hnone⟩ := detectDeadlockError_items rest fun h' => hkind h'.1
  have hno : detected = .noError :=
    hnone.mpr fun h' => by simp [Reply.DeadlockFirst, isDeadlock, hkind] at h'
  unfold doCommand
  simp only [hdetect, commandLoop_items fun h' => hkind h'.1, hno, if_true, ite_self]

theorem doCommand_long (hkind : reply.result.kind = 69) (hlong : reply.Long) :
    doCommand noReadyForQuery ⟨tstate, reply.items ++ rest⟩ =
      some (if noReadyForQuery then .continue else .deadlock,
        readReady noReadyForQuery reply.status tstate rest) := by
  unfold doCommand
  simp only [detectDeadlockError_long hkind hlong, commandLoop_after]
  cases noReadyForQuery <;> rfl

theorem doCommand_fatal (hkind : reply.result.kind = 69) (hlong : ¬ reply.Long)
    (hfatal : isFatal reply.result = true) :
    doCommand noReadyForQuery ⟨tstate, reply.items ++ rest⟩ =
      some (.stop, ⟨tstate, reply.after.map .message ++ [.ready reply.status] ++ rest⟩) := by
  obtain ⟨detected, hdetect, -⟩ := detectDeadlockError_items rest fun h => hlong h.2
  unfold doCommand
  simp only [hdetect, commandLoop_fatal hkind hfatal]

theorem doCommand_error (hkind : reply.result.kind = 69) (hlong : ¬ reply.Long)
    (hfatal : isFatal reply.result = false) :
    ∃ status, doCommand noReadyForQuery ⟨tstate, reply.items ++ rest⟩ =
        some (status, readReady noReadyForQuery reply.status tstate rest) ∧ status ≠ .stop ∧
      (status = .deadlock ↔ noReadyForQuery = false ∧ reply.DeadlockFirst) := by
  obtain ⟨detected, hdetect, hnone⟩ := detectDeadlockError_items rest fun h => hlong h.2
  have hstate : resultState reply tstate = tstate := by
    unfold resultState
    rw [hkind]
    simp
  have hloop : commandLoop (reply.items ++ rest) tstate = some (some reply.status, tstate, rest) := by
    rw [commandLoop_items (by simp [hfatal]), hstate]
  unfold doCommand
  simp only [hdetect, hloop]
  cases noReadyForQuery with
  | true => exact ⟨.continue, rfl, by simp, by simp⟩
  | false =>
    by_cases hfirst : reply.DeadlockFirst
    · have hdetected : detected ≠ .noError := fun h => hnone.mp h hfirst
      refine ⟨.deadlock, ?_, by simp, by simp [hfirst]⟩
      simp [hdetected]
    · have hno : detected = .noError := hnone.mpr hfirst
      refine ⟨.continue, ?_, by simp, by simp [hfirst]⟩
      simp [hno]

end PgPool.Internal
