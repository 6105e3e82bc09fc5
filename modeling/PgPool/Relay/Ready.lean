import Mathlib.Data.List.Flatten
import PgPool.Relay.Copy

/-!
# ReadyForQuery

`ReadyForQuery` of `pool_proto_modules.c` for protocol V3, with the queries of its own that pgpool
sends before the client may go on: the failing one after nodes have reported different numbers of
rows, and the COMMIT of an internal transaction.
-/

namespace PgPool

/-- The state of a connection to a node. -/
structure Slot where
  tstate : UInt8
  isInternalTransactionStarted : Bool
  deriving DecidableEq, Repr

/-- A child that passes on replies. -/
structure Exchange where
  relay : Relay
  slots : NodeId → Slot
  mismatchNtuples : Bool

/-- What `ProcessBackendResponse` finds in the session. -/
structure QueryScene where
  nodes : QueryNodes
  /-- `MASTER_SLAVE ? PRIMARY_NODE_ID : REAL_MASTER_NODE_ID`. -/
  stateNode : NodeId
  allowCloseTransaction : Bool
  /-- `failover_if_affected_tuples_mismatch` is on, and there are victims. -/
  failover : Bool
  /-- The query is a BEGIN in the extended protocol. -/
  beginsTransaction : Bool
  /-- The nodes on which `raise_intentional_error_if_need` aborts the transaction. -/
  errorNodes : List NodeId
  extended : Bool
  /-- The nodes, other than that of the state, on which `close_standby_transactions` looks after a
  command of two-phase commit; none after another one. -/
  standbys : List NodeId
  /-- A message that has been sent waits for its completion. -/
  uncompletedMessage : Bool
  /-- How often the client is polled while pgpool waits for the reply to a query of its own. -/
  polls : NodeId → Nat

namespace Relay

/-- `POOL_ERROR_QUERY`, with its null character. -/
def errorQuery : List UInt8 :=
  "send invalid query from pgpool to abort transaction".toList.map (fun c => UInt8.ofNat c.toNat) ++ [0]

def commitQuery : List UInt8 := [67, 79, 77, 77, 73, 84, 0]

/-- `send_simplequery_message`. -/
def sendSimplequeryMessage (i : NodeId) (query : List UInt8) : List RelayAction :=
  [.toBackend i (81 :: (htonl (query.length + 4) ++ query)), .flush i]

/-- The parameter status by which `wait_for_query_response` finds out whether the client is there. -/
def dummyParameter : List UInt8 :=
  let contents := "pgpool_dummy_param".toList.map (fun c => UInt8.ofNat c.toNat) ++ [0] ++
    "pgpool_dummy_value".toList.map (fun c => UInt8.ofNat c.toNat) ++ [0]
  83 :: (htonl (contents.length + 4) ++ contents)

section

variable (fresh : Nat → UInt8) (r : Relay)

/-- `pool_read_message_length`: the length words are the same. -/
def readMessageLength (nodes : QueryNodes) : Option (List UInt8 × Relay) :=
  match (r.backends nodes.master).poolRead fresh 4 with
  | none => none
  | some (word, s) =>
      match go word nodes.others (r.setBackend nodes.master s) with
      | none => none
      | some r => if ntohl word < 2 ^ 31 then some (word, r) else none
where
  go (word : List UInt8) : List NodeId → Relay → Option Relay
    | [], r => some r
    | i :: rest, r =>
        match (r.backends i).poolRead fresh 4 with
        | none => none
        | some (word', s) => if word' = word then go word rest (r.setBackend i s) else none

/-- The length word of ReadyForQuery, which is not looked at, and the status. -/
def readStatus (i : NodeId) : Option (UInt8 × Relay) :=
  match (r.backends i).poolRead fresh 4 with
  | none => none
  | some (_, s) => (r.setBackend i s).readKind fresh i

/-- The loop of `do_error_command`. -/
def skipToError (i : NodeId) : Nat → Relay → PoolStatus × Relay
  | 0, r => (.stop, r)
  | fuel + 1, r =>
      match r.readKind fresh i with
      | none => (.stop, r)
      | some (kind, r) =>
          match r.readContents fresh i with
          | none => (.stop, r)
          | some (_, r) => if kind = 69 then (.continue, r) else skipToError i fuel r

/-- `do_error_command`. -/
def doErrorCommand (i : NodeId) : PoolStatus × Relay :=
  skipToError fresh i ((r.backends i).ahead.length + 1)
    (r.act (sendSimplequeryMessage i errorQuery))

/-- The loop of `do_command`: notices, errors, parameter statuses and command tags are skipped. -/
def skipToReady (i : NodeId) : Nat → Relay → PoolStatus × Relay
  | 0, r => (.stop, r)
  | fuel + 1, r =>
      match r.readKind fresh i with
      | none => (.stop, r)
      | some (kind, r) =>
          if kind = 90 then (.continue, r)
          else if kind ≠ 78 ∧ kind ≠ 69 ∧ kind ≠ 83 ∧ kind ≠ 67 then (.stop, r)
          else
            match r.readContents fresh i with
            | none => (.stop, r)
            | some (p, r) =>
                if kind == 69 && isPanicOrFatalError true p then (.stop, r) else skipToReady i fuel r

/-- `do_command` without the rest of ReadyForQuery, for COMMIT.  The look for a deadlock error leaves
the stream as the loop would. -/
def doCommit (i : NodeId) (polls : Nat) : PoolStatus × Relay :=
  skipToReady fresh i ((r.backends i).ahead.length + 1)
    (r.act (sendSimplequeryMessage i commitQuery ++ List.replicate polls (.toFrontend dummyParameter)))

/-- `pool_read_kind`, whose result is a `signed char` that must not be negative. -/
def poolReadSignedKind (nodes : QueryNodes) : Option (UInt8 × Relay) :=
  match r.poolReadKind fresh nodes with
  | none => none
  | some (kind, r) => if kind < 128 then some (kind, r) else none

/-- The loop of `ReadyForQuery` after the failing query: messages are discarded. -/
def discardToReady (nodes : QueryNodes) : Nat → Relay → PoolStatus × Relay
  | 0, r => (.stop, r)
  | fuel + 1, r =>
      match r.poolReadSignedKind fresh nodes with
      | none => (.stop, r)
      | some (kind, r) =>
          if kind = 90 then (.continue, r)
          else
            match readAllContents fresh nodes.valid r with
            | none => (.stop, r)
            | some r => discardToReady nodes fuel r

end

end Relay

namespace Exchange

variable (fresh : Nat → UInt8) (q : QueryScene)

def setSlot (x : Exchange) (i : NodeId) (slot : Slot) : Exchange :=
  { x with slots := Function.update x.slots i slot }

/-- Something is done for some nodes, until it fails. -/
def forNodes (f : NodeId → Exchange → PoolStatus × Exchange) :
    List NodeId → Exchange → PoolStatus × Exchange
  | [], x => (.continue, x)
  | i :: rest, x =>
      match f i x with
      | (.continue, x) => forNodes f rest x
      | (status, x) => (status, x)

/-- The transactions are aborted after a mismatch.  What `do_error_command` returns is ignored. -/
def abortOnMismatch (x : Exchange) : PoolStatus × Exchange :=
  if x.mismatchNtuples then
    if q.failover then (.stop, x)
    else
      match x.relay.readMessageLength fresh q.nodes with
      | none => (.stop, x)
      | some (_, r) =>
          match r.poolReadSignedKind fresh q.nodes with
          | none => (.stop, { x with relay := r })
          | some (_, r) =>
              let (_, x) := forNodes
                (fun i x => (.continue, { x with relay := (x.relay.doErrorCommand fresh i).2 }))
                q.nodes.valid { x with relay := r }
              match x.relay.discardToReady fresh q.nodes
                  ((x.relay.backends q.nodes.master).ahead.length + 1) with
              | (.continue, r) => (.continue, { x with relay := r, mismatchNtuples := false })
              | (status, r) => (status, { x with relay := r })
  else (.continue, x)

/-- The COMMIT of an internal transaction, for one node. -/
def commitInternal (i : NodeId) (x : Exchange) : PoolStatus × Exchange :=
  let slot := x.slots i
  if slot.tstate ≠ 73 ∧ slot.isInternalTransactionStarted then
    match x.relay.readStatus fresh i with
    | none => (.stop, x)
    | some (_, r) =>
        let (status, r) := r.doCommit fresh i (q.polls i)
        (status, { x with relay := r }.setSlot i { slot with isInternalTransactionStarted := false })
  else (.continue, x)

/-- `end_internal_transaction`: the master comes last. -/
def endInternalTransaction (x : Exchange) : PoolStatus × Exchange :=
  forNodes (commitInternal fresh q) (q.nodes.others ++ [q.nodes.master]) x

/-- A node's status is read and kept. -/
def keepStatus (i : NodeId) (x : Exchange) : PoolStatus × Exchange :=
  match x.relay.readKind fresh i with
  | none => (.stop, x)
  | some (status, r) =>
      (.continue, { x with relay := r }.setSlot i { x.slots i with tstate := status })

/-- `close_standby_transactions`, for one node. -/
def commitStandby (i : NodeId) (x : Exchange) : PoolStatus × Exchange :=
  let slot := x.slots i
  if slot.tstate = 84 then
    match x.relay.doCommit fresh i (q.polls i) with
    | (.continue, r) =>
        match r.readStatus fresh i with
        | none => (.stop, { x with relay := r })
        | some (status, r) => (.continue, { x with relay := r }.setSlot i { slot with tstate := status })
    | (status, r) => (status, { x with relay := r })
  else (.continue, x)

/-- The last part of `ReadyForQuery`: the statuses of the nodes, and what the client is told. -/
def tellReady (x : Exchange) : PoolStatus × Exchange :=
  match x.relay.readMessageLength fresh q.nodes with
  | none => (.stop, x)
  | some (word, r) =>
      match forNodes (keepStatus fresh) q.nodes.valid { x with relay := r } with
      | (.continue, x) =>
          let state := (x.slots q.stateNode).tstate
          let x := { x with relay := x.relay.act [.toFrontend (90 :: (word ++ [state]))] }
          forNodes (commitStandby fresh q) q.standbys x
      | (status, x) => (status, x)

/-- `ReadyForQuery`. -/
def readyForQuery (x : Exchange) : PoolStatus × Exchange :=
  match x.abortOnMismatch fresh q with
  | (.continue, x) =>
      if q.allowCloseTransaction then
        match x.endInternalTransaction fresh q with
        | (.continue, x) => x.tellReady fresh q
        | (status, x) => (status, x)
      else x.tellReady fresh q
  | (status, x) => (status, x)

end Exchange

/-! ## What has been taken from the nodes -/

theorem QueryNodes.nodup_valid (nodes : QueryNodes) : nodes.valid.Nodup := nodes.nodup

/-- Bytes of some nodes only. -/
def only (l : List NodeId) (bytes : NodeId → List UInt8) (i : NodeId) : List UInt8 :=
  if i ∈ l then bytes i else []

theorem only_mem {l : List NodeId} {bytes : NodeId → List UInt8} {i : NodeId} (h : i ∈ l) :
    only l bytes i = bytes i := if_pos h

theorem only_not_mem {l : List NodeId} {bytes : NodeId → List UInt8} {i : NodeId} (h : i ∉ l) :
    only l bytes i = [] := if_neg h

namespace Relay

section

variable {fresh : Nat → UInt8} {nodes : QueryNodes} {up l : List NodeId} {r t u : Relay} {i : NodeId}
  {rest rest' bytes : NodeId → List UInt8} {a b : List RelayAction}

/-- What the nodes with a connection send next. -/
def Ahead (up : List NodeId) (r : Relay) (bytes : NodeId → List UInt8) : Prop :=
  ∀ i ∈ up, r.At i (bytes i)

/-- This is still to come from the nodes, and this has been done. -/
structure Took (up : List NodeId) (r : Relay) (rest : NodeId → List UInt8) (a : List RelayAction)
    (t : Relay) : Prop where
  ahead : t.Ahead up rest
  actions : t.actions = r.actions ++ a

theorem Took.trans (h : Took up r rest a t) (h' : Took up t rest' b u) :
    Took up r rest' (a ++ b) u := by
  refine ⟨h'.ahead, ?_⟩
  rw [h'.actions, h.actions, List.append_assoc]

theorem Took.refl (h : r.Ahead up rest) : Took up r rest [] r := ⟨h, (List.append_nil _).symm⟩

theorem Ahead.act (h : r.Ahead up bytes) : (r.act a).Ahead up bytes := fun i hi => at_act (h i hi)

theorem Ahead.mem (h : r.Ahead up fun i => only l bytes i ++ rest i) (hl : ∀ i ∈ l, i ∈ up)
    (hi : i ∈ l) : r.At i (bytes i ++ rest i) := by
  have hat := h i (hl i hi)
  simp only [only_mem hi] at hat
  exact hat

theorem Took.of_sameBut (h : r.Ahead up fun i => only l bytes i ++ rest i)
    (hall : ∀ i ∈ l, t.At i (rest i)) (hsame : SameBut l (r.act a) t) : Took up r rest a t := by
  refine ⟨fun i hi => ?_, hsame.actions⟩
  by_cases hmem : i ∈ l
  · exact hall i hmem
  · have hat := h i hi
    simp only [only_not_mem hmem, List.nil_append] at hat
    exact hsame.at hmem (at_act hat)

/-- Nothing has been done. -/
theorem SameBut.noAct (h : SameBut l r t) : SameBut l (r.act []) t := by
  refine ⟨h.frontend, ?_, h.backends⟩
  rw [h.actions]
  exact (List.append_nil _).symm

variable (fresh) in
theorem readWord_of_at {word rest : List UInt8} (hword : word.length = 4) (h : r.At i (word ++ rest)) :
    ∃ s, (r.backends i).poolRead fresh 4 = some (word, s) ∧ (r.setBackend i s).At i rest ∧
      SameBut [i] r (r.setBackend i s) := by
  obtain ⟨s, hs, hrest, hbuf⟩ := h.holds.poolRead fresh hword
  exact ⟨s, hs, at_setBackend hrest (hbuf ▸ h.buffer), sameBut_setBackend s⟩

/-- The rest of ReadyForQuery. -/
def statusBody (status : UInt8) : List UInt8 := htonl 5 ++ [status]

variable (fresh) in
theorem readStatus_of_at {status : UInt8} {rest : List UInt8} (h : r.At i (statusBody status ++ rest)) :
    ∃ t, r.readStatus fresh i = some (status, t) ∧ t.At i rest ∧ SameBut [i] r t := by
  rw [statusBody, List.append_assoc] at h
  obtain ⟨s, hs, hat, hsame⟩ := readWord_of_at fresh (length_htonl 5) h
  obtain ⟨t, ht, hrest, hsame'⟩ := readKind_of_at fresh hat
  refine ⟨t, ?_, hrest, hsame.comp hsame'⟩
  unfold readStatus
  simp only [hs, ht]

variable (fresh) in
theorem readMessageLengthGo_of_at {word : List UInt8} (hword : word.length = 4) (hl : l.Nodup)
    (h : ∀ i ∈ l, r.At i (word ++ rest i)) :
    ∃ t, readMessageLength.go fresh word l r = some t ∧ (∀ i ∈ l, t.At i (rest i)) ∧ SameBut l r t := by
  induction l generalizing r with
  | nil => exact ⟨r, rfl, by simp, rfl, rfl, fun _ _ => rfl⟩
  | cons i l ih =>
    obtain ⟨hi, hl⟩ := List.nodup_cons.1 hl
    obtain ⟨s, hs, hat, hsame⟩ := readWord_of_at fresh hword (h i (List.mem_cons_self ..))
    have hnext : ∀ j ∈ l, (r.setBackend i s).At j (word ++ rest j) := hsame.at_others hi h
    obtain ⟨u, hu, hall, hlast⟩ := ih hl hnext
    refine ⟨u, ?_, ?_, hsame.trans hlast⟩
    · simp only [readMessageLength.go, hs, if_true, hu]
    · exact hlast.at_cons hi hat hall

variable (fresh nodes) in
theorem readMessageLength_of_ahead {word : List UInt8} (hword : word.length = 4)
    (hsize : ntohl word < 2 ^ 31) (hup : ∀ i ∈ nodes.valid, i ∈ up)
    (h : r.Ahead up fun i => only nodes.valid (fun _ => word) i ++ rest i) :
    ∃ t, r.readMessageLength fresh nodes = some (word, t) ∧ Took up r rest [] t := by
  obtain ⟨hmaster, hothers⟩ := List.nodup_cons.1 nodes.nodup
  obtain ⟨s, hs, hat, hsame⟩ :=
    readWord_of_at fresh hword (h.mem hup (List.mem_cons_self ..))
  have hnext : ∀ i ∈ nodes.others, (r.setBackend nodes.master s).At i (word ++ rest i) := by
    intro i hi
    have hne : i ∉ [nodes.master] := by
      intro him
      exact hmaster (List.mem_singleton.1 him ▸ hi)
    exact hsame.at hne (h.mem hup (List.mem_cons_of_mem _ hi))
  obtain ⟨u, hu, hall, hlast⟩ := readMessageLengthGo_of_at fresh hword hothers hnext
  have hboth : SameBut nodes.valid r u := hsame.trans hlast
  refine ⟨u, ?_, Took.of_sameBut h ?_ hboth.noAct⟩
  · simp only [readMessageLength, hs, hu, if_pos hsize]
  · intro i hi
    rcases List.mem_cons.1 hi with rfl | hi
    · exact hlast.at hmaster hat
    · exact hall i hi

variable (fresh nodes) in
theorem poolReadSignedKind_of_ahead {kind : UInt8} (hkind : kind < 128)
    (hup : ∀ i ∈ nodes.valid, i ∈ up)
    (h : r.Ahead up fun i => only nodes.valid (fun _ => [kind]) i ++ rest i) :
    ∃ t, r.poolReadSignedKind fresh nodes = some (kind, t) ∧ Took up r rest [] t := by
  obtain ⟨t, ht, hall, hsame⟩ := poolReadKind_of_at fresh nodes fun i hi => h.mem hup hi
  refine ⟨t, ?_, Took.of_sameBut h hall hsame.noAct⟩
  unfold poolReadSignedKind
  simp only [ht, if_pos hkind]

variable (fresh) in
theorem skipToError_of_at {before : List WireMessage} {error : WireMessage} {rest : List UInt8}
    {fuel : Nat} (hbefore : ∀ m ∈ before, m.kind ≠ 69) (herror : error.kind = 69)
    (h : r.At i (wire before ++ (error.bytes ++ rest))) (hfuel : before.length < fuel) :
    ∃ t, skipToError fresh i fuel r = (.continue, t) ∧ t.At i rest ∧ SameBut [i] r t := by
  induction before generalizing r fuel with
  | nil =>
    obtain ⟨t, ht, hat, hsame⟩ := readKind_of_at fresh h
    obtain ⟨u, hu, hrest, hsame'⟩ := readContents_of_at fresh hat
    cases fuel with
    | zero => cases hfuel
    | succ fuel =>
      refine ⟨u, ?_, hrest, hsame.comp hsame'⟩
      simp only [skipToError, ht, hu, if_pos herror]
  | cons m before ih =>
    rw [wire_cons, List.append_assoc] at h
    obtain ⟨t, ht, hat, hsame⟩ := readKind_of_at fresh h
    obtain ⟨u, hu, hrest, hsame'⟩ := readContents_of_at fresh hat
    cases fuel with
    | zero => cases hfuel
    | succ fuel =>
      obtain ⟨v, hv, hlast, hsame''⟩ := ih (fun x hx => hbefore x (List.mem_cons_of_mem _ hx)) hrest
        (Nat.lt_of_succ_lt_succ hfuel)
      refine ⟨v, ?_, hlast, (hsame.comp hsame').comp hsame''⟩
      simp only [skipToError, ht, hu, if_neg (hbefore m (List.mem_cons_self ..)), hv]

/-- A message that `do_command` skips. -/
def Skipped (m : WireMessage) : Prop :=
  (m.kind = 78 ∨ m.kind = 69 ∨ m.kind = 83 ∨ m.kind = 67) ∧
    (m.kind = 69 → isPanicOrFatalError true m.contents = false)

variable (fresh) in
theorem skipToReady_of_at {messages : List WireMessage} {rest : List UInt8} {fuel : Nat}
    (hmessages : ∀ m ∈ messages, Skipped m) (h : r.At i (wire messages ++ 90 :: rest))
    (hfuel : messages.length < fuel) :
    ∃ t, skipToReady fresh i fuel r = (.continue, t) ∧ t.At i rest ∧ SameBut [i] r t := by
  induction messages generalizing r fuel with
  | nil =>
    obtain ⟨t, ht, hat, hsame⟩ := readKind_of_at fresh h
    cases fuel with
    | zero => cases hfuel
    | succ fuel =>
      refine ⟨t, ?_, hat, hsame⟩
      simp only [skipToReady, ht, if_true]
  | cons m messages ih =>
    obtain ⟨hkind, hfatal⟩ := hmessages m (List.mem_cons_self ..)
    rw [wire_cons, List.append_assoc] at h
    obtain ⟨t, ht, hat, hsame⟩ := readKind_of_at fresh h
    obtain ⟨u, hu, hrest, hsame'⟩ := readContents_of_at fresh hat
    cases fuel with
    | zero => cases hfuel
    | succ fuel =>
      obtain ⟨v, hv, hlast, hsame''⟩ := ih (fun x hx => hmessages x (List.mem_cons_of_mem _ hx)) hrest
        (Nat.lt_of_succ_lt_succ hfuel)
      refine ⟨v, ?_, hlast, (hsame.comp hsame').comp hsame''⟩
      have hready : m.kind ≠ 90 := by
        rcases hkind with h | h | h | h <;> rw [h] <;> decide
      have hknown : ¬ (m.kind ≠ 78 ∧ m.kind ≠ 69 ∧ m.kind ≠ 83 ∧ m.kind ≠ 67) := by
        intro hall
        rcases hkind with h | h | h | h
        · exact hall.1 h
        · exact hall.2.1 h
        · exact hall.2.2.1 h
        · exact hall.2.2.2 h
      have hgoes : (m.kind == 69 && isPanicOrFatalError true m.contents) = false := by
        by_cases h69 : m.kind = 69
        · rw [hfatal h69, Bool.and_false]
        · rw [beq_eq_false_iff_ne.2 h69, Bool.false_and]
      simp only [skipToReady, ht, hu, if_neg hready, if_neg hknown, hgoes, hv, Bool.false_eq_true,
        if_false]

variable (fresh nodes) in
/-- Messages of the same kinds are discarded, up to ReadyForQuery. -/
theorem discardToReady_of_ahead {messages : NodeId → List WireMessage} {ms : List WireMessage}
    {fuel : Nat} (hms : messages nodes.master = ms) (hkinds : SameKinds nodes messages)
    (hother : ∀ m ∈ ms, m.kind < 128 ∧ m.kind ≠ 90) (hup : ∀ i ∈ nodes.valid, i ∈ up)
    (h : r.Ahead up fun i => only nodes.valid (fun i => wire (messages i) ++ [90]) i ++ rest i)
    (hfuel : ms.length < fuel) :
    ∃ t, discardToReady fresh nodes fuel r = (.continue, t) ∧ Took up r rest [] t := by
  induction ms generalizing r messages fuel with
  | nil =>
    have hnil : ∀ i ∈ nodes.valid, messages i = [] := by
      intro i hi
      have hi' := hkinds i hi
      rw [hms] at hi'
      exact List.map_eq_nil_iff.1 hi'
    have hready : r.Ahead up fun i => only nodes.valid (fun _ => [90]) i ++ rest i := by
      intro i hi
      have hat := h i hi
      by_cases hmem : i ∈ nodes.valid
      · simpa only [only_mem hmem, hnil i hmem, wire_nil, List.nil_append] using hat
      · simpa only [only_not_mem hmem] using hat
    obtain ⟨t, ht, htook⟩ := poolReadSignedKind_of_ahead fresh nodes (by decide) hup hready
    cases fuel with
    | zero => cases hfuel
    | succ fuel =>
      refine ⟨t, ?_, htook⟩
      simp only [discardToReady, ht, if_true]
  | cons m back ih =>
    obtain ⟨first, tail, hcons, hfirst, htail, hsame⟩ := hkinds.cons hms
    obtain ⟨hsigned, hnot⟩ := hother m (List.mem_cons_self ..)
    -- the kind, and then the contents
    have hkind : r.Ahead up fun i => only nodes.valid (fun _ => [m.kind]) i ++
        (only nodes.valid (fun i => (first i).body ++ (wire (tail i) ++ [90])) i ++ rest i) := by
      intro i hi
      have hat := h i hi
      by_cases hmem : i ∈ nodes.valid
      · obtain ⟨hlist, hk⟩ := hcons i hmem
        simp only [only_mem hmem, hlist, wire_cons, WireMessage.bytes, hk] at hat ⊢
        simpa using hat
      · simpa only [only_not_mem hmem, List.nil_append] using hat
    obtain ⟨t, ht, htook⟩ := poolReadSignedKind_of_ahead fresh nodes hsigned hup hkind
    have hbody : ∀ i ∈ nodes.valid, t.At i ((first i).body ++ (wire (tail i) ++ [90] ++ rest i)) := by
      intro i hi
      have hat := htook.ahead.mem hup hi
      rwa [List.append_assoc] at hat
    obtain ⟨u, hu, hall, hmoved⟩ := readAllContents_of_at fresh nodes.nodup_valid hbody
    have hnext : t.Ahead up fun i => only nodes.valid (fun i => (first i).body) i ++
        (only nodes.valid (fun i => wire (tail i) ++ [90]) i ++ rest i) := by
      intro i hi
      have hat := htook.ahead i hi
      by_cases hmem : i ∈ nodes.valid
      · simp only [only_mem hmem] at hat ⊢
        rwa [List.append_assoc] at hat
      · simpa only [only_not_mem hmem, List.nil_append] using hat
    have htook' : Took up t (fun i => only nodes.valid (fun i => wire (tail i) ++ [90]) i ++ rest i) []
        u := by
      refine Took.of_sameBut hnext (fun i hi => ?_) hmoved.noAct
      simpa only [only_mem hi] using hall i hi
    cases fuel with
    | zero => cases hfuel
    | succ fuel =>
      obtain ⟨v, hv, hlast⟩ := ih htail hsame (fun x hx => hother x (List.mem_cons_of_mem _ hx))
        htook'.ahead (Nat.lt_of_succ_lt_succ hfuel)
      refine ⟨v, ?_, (htook.trans htook').trans hlast⟩
      simp only [discardToReady, ht, if_neg hnot, hu, hv]

end

end Relay

namespace Exchange

open Relay

section

variable {fresh : Nat → UInt8} {q : QueryScene} {up l : List NodeId} {x y z : Exchange} {i : NodeId}
  {rest rest' bytes : NodeId → List UInt8} {a b : List RelayAction} {slots slots' : NodeId → Slot}
  {mismatch mismatch' : Bool}

/-- What a part of `ReadyForQuery` comes to. -/
structure Reaches (up : List NodeId) (x : Exchange) (rest : NodeId → List UInt8)
    (a : List RelayAction) (slots : NodeId → Slot) (mismatch : Bool) (y : Exchange) : Prop where
  took : Took up x.relay rest a y.relay
  slots : y.slots = slots
  mismatch : y.mismatchNtuples = mismatch

theorem Reaches.trans (h : Reaches up x rest a slots mismatch y)
    (h' : Reaches up y rest' b slots' mismatch' z) : Reaches up x rest' (a ++ b) slots' mismatch' z :=
  ⟨h.took.trans h'.took, h'.slots, h'.mismatch⟩

theorem Reaches.refl (h : x.relay.Ahead up rest) : Reaches up x rest [] x.slots x.mismatchNtuples x :=
  ⟨.refl h, rfl, rfl⟩

theorem only_cons (hi : i ∉ l) (j : NodeId) :
    only (i :: l) bytes j ++ rest j = only [i] bytes j ++ (only l bytes j ++ rest j) := by
  by_cases hj : j = i
  · subst hj
    rw [only_mem (List.mem_cons_self ..), only_mem (List.mem_cons_self ..), only_not_mem hi,
      List.nil_append]
  · have hsingle : j ∉ [i] := by simpa using hj
    by_cases hmem : j ∈ l
    · rw [only_mem (List.mem_cons_of_mem _ hmem), only_mem hmem, only_not_mem hsingle, List.nil_append]
    · have hcons : j ∉ i :: l := by
        rw [List.mem_cons, not_or]
        exact ⟨hj, hmem⟩
      rw [only_not_mem hcons, only_not_mem hmem, only_not_mem hsingle]
      simp

/-- For one node, what its turn comes to: bytes of it are read, and its slot changes. -/
def Turn (up : List NodeId) (f : NodeId → Exchange → PoolStatus × Exchange) (s : NodeId → Slot)
    (bytes : NodeId → List UInt8) (a : NodeId → List RelayAction) (new : NodeId → Slot) (i : NodeId) :
    Prop :=
  ∀ (y : Exchange) (rest : NodeId → List UInt8), y.slots i = s i →
    (y.relay.Ahead up fun j => only [i] bytes j ++ rest j) →
    ∃ z, f i y = (.continue, z) ∧
      Reaches up y rest (a i) (Function.update y.slots i (new i)) y.mismatchNtuples z

/-- The turns of some nodes do not get into each other's way. -/
theorem forNodes_spec {f : NodeId → Exchange → PoolStatus × Exchange} {s new : NodeId → Slot}
    {a : NodeId → List RelayAction} (hl : l.Nodup) (hturn : ∀ i ∈ l, Turn up f s bytes a new i)
    (hs : ∀ i ∈ l, x.slots i = s i) (h : x.relay.Ahead up fun j => only l bytes j ++ rest j) :
    ∃ y, forNodes f l x = (.continue, y) ∧
      Reaches up x rest (l.flatMap a) (fun i => if i ∈ l then new i else x.slots i) x.mismatchNtuples
        y := by
  induction l generalizing x with
  | nil =>
    have hrest : x.relay.Ahead up rest := by
      intro i hi
      simpa only [only_not_mem List.not_mem_nil, List.nil_append] using h i hi
    refine ⟨x, rfl, .refl hrest, ?_, rfl⟩
    funext i
    rw [if_neg List.not_mem_nil]
  | cons i l ih =>
    obtain ⟨hi, hl⟩ := List.nodup_cons.1 hl
    have hhead : x.relay.Ahead up fun j => only [i] bytes j ++ (only l bytes j ++ rest j) := by
      intro j hj
      have hat := h j hj
      simp only [only_cons hi] at hat
      exact hat
    obtain ⟨y, hy, hreach⟩ := hturn i (List.mem_cons_self ..) x _ (hs i (List.mem_cons_self ..)) hhead
    have hkept : ∀ j ∈ l, y.slots j = s j := by
      intro j hj
      have hne : j ≠ i := fun hji => hi (hji ▸ hj)
      rw [hreach.slots, Function.update_of_ne hne]
      exact hs j (List.mem_cons_of_mem _ hj)
    obtain ⟨z, hz, hlast⟩ := ih hl (fun j hj => hturn j (List.mem_cons_of_mem _ hj)) hkept
      hreach.took.ahead
    refine ⟨z, ?_, ?_, ?_, ?_⟩
    · simp only [forNodes, hy, hz]
    · rw [List.flatMap_cons]
      exact hreach.took.trans hlast.took
    · rw [hlast.slots, hreach.slots]
      funext j
      by_cases hji : j = i
      · subst hji
        rw [if_neg hi, if_pos (List.mem_cons_self ..), Function.update_self]
      · simp only [List.mem_cons, hji, false_or, Function.update_of_ne hji]
    · exact hlast.mismatch.trans hreach.mismatch

theorem ahead_single (h : x.relay.Ahead up fun j => only [i] bytes j ++ rest j) (hi : i ∈ up) :
    x.relay.At i (bytes i ++ rest i) := by
  refine h.mem (fun j hj => ?_) (List.mem_cons_self ..)
  rw [List.mem_singleton.1 hj]
  exact hi

/-! The turns. -/

variable (fresh) in
/-- The failing query, and the reply up to the error. -/
theorem turn_errorCommand {before : NodeId → List WireMessage} {error : NodeId → WireMessage}
    {s : NodeId → Slot} (hi : i ∈ up) (hbefore : ∀ m ∈ before i, m.kind ≠ 69)
    (herror : (error i).kind = 69) :
    Turn up (fun i x => (.continue, { x with relay := (x.relay.doErrorCommand fresh i).2 })) s
      (fun i => wire (before i) ++ (error i).bytes) (fun i => sendSimplequeryMessage i errorQuery) s
      i := by
  intro y rest hs h
  have hat := ahead_single h hi
  rw [List.append_assoc] at hat
  have hfuel : (before i).length < (y.relay.backends i).ahead.length + 1 := by
    have hwire := length_le_wire (before i)
    rw [hat.holds.ahead, List.length_append]
    omega
  have hsent : (y.relay.act (sendSimplequeryMessage i errorQuery)).At i _ := at_act hat
  obtain ⟨t, ht, hrest, hsame⟩ := skipToError_of_at fresh hbefore herror hsent hfuel
  refine ⟨_, rfl, ?_, ?_, rfl⟩
  · refine Took.of_sameBut h (fun j hj => ?_) ?_
    · rw [List.mem_singleton.1 hj, doErrorCommand, ht]
      exact hrest
    · rw [doErrorCommand, ht]
      exact hsame
  · rw [← hs, Function.update_eq_self]

/-- `end_internal_transaction` has something to do for this node. -/
def Slot.Closing (slot : Slot) : Prop := slot.tstate ≠ 73 ∧ slot.isInternalTransactionStarted

instance (slot : Slot) : Decidable (Slot.Closing slot) := inferInstanceAs (Decidable (_ ∧ _))

/-- COMMIT is sent, and the client is polled. -/
def commitActions (q : QueryScene) (i : NodeId) : List RelayAction :=
  sendSimplequeryMessage i commitQuery ++ List.replicate (q.polls i) (.toFrontend dummyParameter)

variable (fresh) in
theorem doCommit_of_at {r : Relay} {messages : List WireMessage} {rest : List UInt8}
    (hmessages : ∀ m ∈ messages, Skipped m) (h : r.At i (wire messages ++ 90 :: rest)) :
    ∃ t, r.doCommit fresh i (q.polls i) = (.continue, t) ∧ t.At i rest ∧
      SameBut [i] (r.act (commitActions q i)) t := by
  have hfuel : messages.length < (r.backends i).ahead.length + 1 := by
    have hwire := length_le_wire messages
    rw [h.holds.ahead, List.length_append]
    omega
  exact skipToReady_of_at fresh hmessages (at_act h) hfuel

variable (fresh q) in
theorem turn_commitInternal {s : NodeId → Slot} (status : NodeId → UInt8)
    {reply : NodeId → List WireMessage} (hi : i ∈ up) (hreply : ∀ m ∈ reply i, Skipped m) :
    Turn up (commitInternal fresh q) s
      (fun i => if Slot.Closing (s i) then statusBody (status i) ++ (wire (reply i) ++ [90]) else [])
      (fun i => if Slot.Closing (s i) then commitActions q i else [])
      (fun i => if Slot.Closing (s i) then { s i with isInternalTransactionStarted := false } else s i)
      i := by
  intro y rest hs h
  by_cases hclosing : Slot.Closing (s i)
  · have hat := ahead_single h hi
    simp only [if_pos hclosing, List.append_assoc, List.singleton_append] at hat ⊢
    obtain ⟨t, ht, hat', hsame⟩ := readStatus_of_at fresh hat
    obtain ⟨u, hu, hrest, hsame'⟩ := doCommit_of_at (q := q) fresh hreply hat'
    refine ⟨{ y with relay := u }.setSlot i { s i with isInternalTransactionStarted := false }, ?_, ?_,
      rfl, rfl⟩
    · have hdo : (s i).tstate ≠ 73 ∧ (s i).isInternalTransactionStarted = true := hclosing
      simp only [commitInternal, hs, if_pos hdo, ht, hu]
    · refine Took.of_sameBut h (fun j hj => ?_) (hsame.act.comp hsame')
      rw [List.mem_singleton.1 hj]
      exact hrest
  · have hnot : ¬ ((y.slots i).tstate ≠ 73 ∧ (y.slots i).isInternalTransactionStarted = true) := by
      rw [hs]
      exact hclosing
    simp only [if_neg hclosing]
    refine ⟨y, ?_, .refl fun j hj => ?_, ?_, rfl⟩
    · simp only [commitInternal, if_neg hnot]
    · have hat := h j hj
      by_cases hji : j ∈ [i]
      · have hnone : only [i] (fun i => if Slot.Closing (s i) then
            statusBody (status i) ++ (wire (reply i) ++ [90]) else []) j = [] := by
          rw [only_mem hji, List.mem_singleton.1 hji, if_neg hclosing]
        simpa only [hnone, List.nil_append] using hat
      · simpa only [only_not_mem hji, List.nil_append] using hat
    · rw [← hs, Function.update_eq_self]

variable (fresh) in
theorem turn_keepStatus {s : NodeId → Slot} (status : NodeId → UInt8) (hi : i ∈ up) :
    Turn up (keepStatus fresh) s (fun i => [status i]) (fun _ => [])
      (fun i => { s i with tstate := status i }) i := by
  intro y rest hs h
  obtain ⟨t, ht, hrest, hsame⟩ := readKind_of_at fresh (ahead_single h hi)
  refine ⟨{ y with relay := t }.setSlot i { s i with tstate := status i }, ?_, ?_, rfl, rfl⟩
  · simp only [keepStatus, ht, hs]
  · refine Took.of_sameBut h (fun j hj => ?_) hsame.noAct
    rw [List.mem_singleton.1 hj]
    exact hrest

variable (fresh q) in
theorem turn_commitStandby {s : NodeId → Slot} (status : NodeId → UInt8)
    {reply : NodeId → List WireMessage} (hi : i ∈ up) (hreply : ∀ m ∈ reply i, Skipped m) :
    Turn up (commitStandby fresh q) s
      (fun i => if (s i).tstate = 84 then wire (reply i) ++ 90 :: statusBody (status i) else [])
      (fun i => if (s i).tstate = 84 then commitActions q i else [])
      (fun i => if (s i).tstate = 84 then { s i with tstate := status i } else s i) i := by
  intro y rest hs h
  by_cases hopen : (s i).tstate = 84
  · have hat := ahead_single h hi
    simp only [if_pos hopen, List.append_assoc, List.cons_append] at hat ⊢
    obtain ⟨t, ht, hat', hsame⟩ := doCommit_of_at (q := q) fresh hreply hat
    obtain ⟨u, hu, hrest, hsame'⟩ := readStatus_of_at fresh hat'
    refine ⟨{ y with relay := u }.setSlot i { s i with tstate := status i }, ?_, ?_, rfl, rfl⟩
    · simp only [commitStandby, hs, if_pos hopen, ht, hu]
    · refine Took.of_sameBut h (fun j hj => ?_) (hsame.comp hsame')
      rw [List.mem_singleton.1 hj]
      exact hrest
  · simp only [if_neg hopen]
    refine ⟨y, ?_, .refl fun j hj => ?_, ?_, rfl⟩
    · simp only [commitStandby, hs, if_neg hopen]
    · have hat := h j hj
      by_cases hji : j ∈ [i]
      · have hnone : only [i] (fun i => if (s i).tstate = 84 then
            wire (reply i) ++ 90 :: statusBody (status i) else []) j = [] := by
          rw [only_mem hji, List.mem_singleton.1 hji, if_neg hopen]
        simpa only [hnone, List.nil_append] using hat
      · simpa only [only_not_mem hji, List.nil_append] using hat
    · rw [← hs, Function.update_eq_self]

end

end Exchange

/-! ## The whole of ReadyForQuery -/

/-- What the nodes send for ReadyForQuery, and then in reply to pgpool's own queries: to the failing
one up to an error and from there on, to COMMIT, and to COMMIT on a standby. -/
structure ReadyReply where
  status : NodeId → UInt8
  before : NodeId → List WireMessage
  error : NodeId → WireMessage
  behind : NodeId → List WireMessage
  aborted : NodeId → UInt8
  commit : NodeId → List WireMessage
  committed : NodeId → UInt8
  standby : NodeId → List WireMessage
  standbyStatus : NodeId → UInt8

/-- ReadyForQuery. -/
def readyMessage (status : UInt8) : List UInt8 := 90 :: Relay.statusBody status

namespace ReadyReply

open Relay Exchange

/-- The replies are such as the protocol has them, and the nodes agree where pgpool compares. -/
structure Legal (p : ReadyReply) (q : QueryScene) (mismatch : Bool) : Prop where
  status : mismatch → ∀ i ∈ q.nodes.valid, p.status i = p.status q.nodes.master
  ascii : p.status q.nodes.master < 128
  before : ∀ i, ∀ m ∈ p.before i, m.kind ≠ 69
  error : ∀ i, (p.error i).kind = 69
  behind : SameKinds q.nodes p.behind
  other : ∀ m ∈ p.behind q.nodes.master, m.kind < 128 ∧ m.kind ≠ 90
  commit : ∀ i, ∀ m ∈ p.commit i, Skipped m
  standby : ∀ i, ∀ m ∈ p.standby i, Skipped m

variable (p : ReadyReply) (q : QueryScene) (mismatch : Bool) (s : NodeId → Slot) (i : NodeId)

/-- The node's internal transaction is ended. -/
def Closes : Prop := q.allowCloseTransaction ∧ Slot.Closing (s i)

instance : Decidable (Closes q s i) := inferInstanceAs (Decidable (_ ∧ _))

/-- The status after the failing query, if there is one. -/
def statusAfterError : UInt8 := if mismatch then p.aborted i else p.status i

/-- The last status that the node reports. -/
def lastStatus : UInt8 := if Closes q s i then p.committed i else p.statusAfterError mismatch i

/-- The slot once the status is kept. -/
def slotAfter : Slot :=
  if i ∈ q.nodes.valid then
    ⟨p.lastStatus q mismatch s i, if Closes q s i then false else (s i).isInternalTransactionStarted⟩
  else s i

/-- The slot after the transactions on the standbys are closed too. -/
def slotAtEnd : Slot :=
  if i ∈ q.standbys ∧ (p.slotAfter q mismatch s i).tstate = 84 then
    { p.slotAfter q mismatch s i with tstate := p.standbyStatus i }
  else p.slotAfter q mismatch s i

/-- What the node sends in reply to the failing query and to COMMIT. -/
def internalBytes : List UInt8 :=
  (if mismatch then
    wire (p.before i) ++ (p.error i).bytes ++ wire (p.behind i) ++ readyMessage (p.aborted i)
  else []) ++
    (if Closes q s i then wire (p.commit i) ++ readyMessage (p.committed i) else [])

/-- What the node sends before the client is told. -/
def nodeBytes : List UInt8 := readyMessage (p.status i) ++ p.internalBytes q mismatch s i

/-- What a standby sends afterwards. -/
def standbyBytes : List UInt8 :=
  if (p.slotAfter q mismatch s i).tstate = 84 then
    wire (p.standby i) ++ readyMessage (p.standbyStatus i)
  else []

/-- What is done meanwhile: the queries, and ReadyForQuery for the client. -/
def actions : List RelayAction :=
  (if mismatch then q.nodes.valid.flatMap fun i => sendSimplequeryMessage i errorQuery else []) ++
    ((q.nodes.others ++ [q.nodes.master]).flatMap fun i =>
      if Closes q s i then commitActions q i else []) ++
    [.toFrontend (readyMessage (p.slotAfter q mismatch s q.stateNode).tstate)] ++
    q.standbys.flatMap fun i =>
      if (p.slotAfter q mismatch s i).tstate = 84 then commitActions q i else []

/-- The same bytes as they are read. -/
theorem nodeBytes_eq : p.nodeBytes q mismatch s i =
    90 :: ((if mismatch then statusBody (p.status i) ++ (wire (p.before i) ++ (p.error i).bytes ++
        (wire (p.behind i) ++ [90])) else []) ++
      ((if Closes q s i then statusBody (p.statusAfterError mismatch i) ++ (wire (p.commit i) ++ [90])
        else []) ++ statusBody (p.lastStatus q mismatch s i))) := by
  unfold nodeBytes internalBytes lastStatus statusAfterError readyMessage
  by_cases hcloses : Closes q s i
  · cases mismatch <;> simp [hcloses]
  · cases mismatch <;> simp [hcloses]

end ReadyReply

theorem only_append {l : List NodeId} {f g : NodeId → List UInt8} (i : NodeId) :
    only l (fun i => f i ++ g i) i = only l f i ++ only l g i := by
  unfold only
  split <;> simp

@[simp] theorem only_nil {l : List NodeId} (i : NodeId) : only l (fun _ => []) i = [] := by
  unfold only
  split <;> rfl

namespace Relay

/-- What is read first, and what comes behind it. -/
theorem Ahead.split {r : Relay} {up l : List NodeId} {f g rest : NodeId → List UInt8}
    (h : r.Ahead up fun i => only l (fun i => f i ++ g i) i ++ rest i) :
    r.Ahead up fun i => only l f i ++ (only l g i ++ rest i) := by
  intro i hi
  have hat := h i hi
  simp only [only_append, List.append_assoc] at hat
  exact hat

end Relay

namespace Exchange

open Relay ReadyReply

section

variable {fresh : Nat → UInt8} {q : QueryScene} {up : List NodeId} {x : Exchange}
  {rest : NodeId → List UInt8} {p : ReadyReply}

theorem valid_reversed : (q.nodes.others ++ [q.nodes.master]).Nodup ∧
    ∀ i, i ∈ q.nodes.others ++ [q.nodes.master] ↔ i ∈ q.nodes.valid := by
  have hperm : (q.nodes.others ++ [q.nodes.master]).Perm q.nodes.valid := List.perm_append_singleton _ _
  exact ⟨hperm.nodup_iff.2 q.nodes.nodup, fun i => hperm.mem_iff⟩

theorem ntohl_five : ntohl (htonl 5) < 2 ^ 31 := by
  rw [ntohl_htonl (by decide)]
  decide

variable (fresh) in
/-- The transactions are aborted; the length word of the last ReadyForQuery comes next. -/
theorem abortOnMismatch_spec (hup : ∀ i ∈ q.nodes.valid, i ∈ up) (hmismatch : x.mismatchNtuples = true)
    (hfailover : q.failover = false) (hlegal : p.Legal q true)
    (h : x.relay.Ahead up fun i => only q.nodes.valid (fun i => statusBody (p.status i) ++
      (wire (p.before i) ++ (p.error i).bytes ++ (wire (p.behind i) ++ [90]))) i ++ rest i) :
    ∃ y, x.abortOnMismatch fresh q = (.continue, y) ∧
      Reaches up x rest (q.nodes.valid.flatMap fun i => sendSimplequeryMessage i errorQuery) x.slots
        false y := by
  -- the rest of ReadyForQuery, whose status is the same everywhere
  have hstatus : x.relay.Ahead up fun i => only q.nodes.valid (fun _ => htonl 5) i ++
      (only q.nodes.valid (fun _ => [p.status q.nodes.master]) i ++
        (only q.nodes.valid (fun i => wire (p.before i) ++ (p.error i).bytes) i ++
          (only q.nodes.valid (fun i => wire (p.behind i) ++ [90]) i ++ rest i))) := by
    intro i hi
    have hat := h i hi
    by_cases hmem : i ∈ q.nodes.valid
    · simp only [only_mem hmem, statusBody, hlegal.status rfl i hmem] at hat ⊢
      simpa using hat
    · simp only [only_not_mem hmem] at hat ⊢
      exact hat
  obtain ⟨r, hr, hword⟩ := readMessageLength_of_ahead fresh q.nodes (length_htonl 5) ntohl_five hup
    hstatus
  obtain ⟨r', hr', hkind⟩ := poolReadSignedKind_of_ahead fresh q.nodes hlegal.ascii hup hword.ahead
  have hread : Took up x.relay _ [] r' := hword.trans hkind
  -- the failing query for each node
  have hturn : ∀ i ∈ q.nodes.valid, Turn up _ x.slots _ _ x.slots i := fun i hi =>
    turn_errorCommand fresh (hup i hi) (hlegal.before i) (hlegal.error i)
  obtain ⟨y, hy, hreach⟩ := forNodes_spec (x := { x with relay := r' }) q.nodes.nodup_valid hturn
    (fun _ _ => rfl) hread.ahead
  -- what comes before ReadyForQuery
  have hahead := hreach.took.ahead
  have hfuel : (p.behind q.nodes.master).length <
      (y.relay.backends q.nodes.master).ahead.length + 1 := by
    have hat := hahead.mem hup (List.mem_cons_self ..)
    have hwire := length_le_wire (p.behind q.nodes.master)
    rw [hat.holds.ahead, List.length_append, List.length_append]
    omega
  obtain ⟨t, ht, htook⟩ := discardToReady_of_ahead fresh q.nodes rfl hlegal.behind hlegal.other hup
    hahead hfuel
  refine ⟨{ y with relay := t, mismatchNtuples := false }, ?_, ?_, ?_, rfl⟩
  · rw [hmismatch] at hy
    simp only [abortOnMismatch, hmismatch, hfailover, hr, hr', if_true, Bool.false_eq_true, if_false,
      hy, ht]
  · have hthrough := (hread.trans hreach.took).trans htook
    simp only [List.nil_append, List.append_nil] at hthrough
    exact hthrough
  · rw [hreach.slots]
    funext i
    split <;> rfl

variable (fresh) in
/-- The internal transactions are ended. -/
theorem endInternalTransaction_spec {status : NodeId → UInt8} (hup : ∀ i ∈ q.nodes.valid, i ∈ up)
    (hcommit : ∀ i, ∀ m ∈ p.commit i, Skipped m)
    (h : x.relay.Ahead up fun i => only q.nodes.valid (fun i => if Slot.Closing (x.slots i) then
      statusBody (status i) ++ (wire (p.commit i) ++ [90]) else []) i ++ rest i) :
    ∃ y, x.endInternalTransaction fresh q = (.continue, y) ∧
      Reaches up x rest
        ((q.nodes.others ++ [q.nodes.master]).flatMap fun i =>
          if Slot.Closing (x.slots i) then commitActions q i else [])
        (fun i => if i ∈ q.nodes.valid ∧ Slot.Closing (x.slots i) then
          { x.slots i with isInternalTransactionStarted := false } else x.slots i)
        x.mismatchNtuples y := by
  obtain ⟨hnodup, hmem⟩ := valid_reversed (q := q)
  have hturn : ∀ i ∈ q.nodes.others ++ [q.nodes.master], Turn up _ x.slots _ _ _ i := fun i hi =>
    turn_commitInternal fresh q status (hup i ((hmem i).1 hi)) (hcommit i)
  have hsame : x.relay.Ahead up fun i => only (q.nodes.others ++ [q.nodes.master]) (fun i =>
      if Slot.Closing (x.slots i) then statusBody (status i) ++ (wire (p.commit i) ++ [90])
        else []) i ++ rest i := by
    intro i hi
    have hat := h i hi
    simp only [only, hmem i] at hat ⊢
    exact hat
  obtain ⟨y, hy, hreach⟩ := forNodes_spec hnodup hturn (fun _ _ => rfl) hsame
  refine ⟨y, hy, hreach.took, ?_, hreach.mismatch⟩
  rw [hreach.slots]
  funext i
  simp only [hmem i]
  by_cases hi : i ∈ q.nodes.valid
  · simp only [hi, true_and, if_true]
  · simp only [hi, false_and, if_false]

variable (fresh) in
/-- The statuses are kept and the client is told; then come the standbys. -/
theorem tellReady_spec {status : NodeId → UInt8} {new : NodeId → Slot}
    (hup : ∀ i ∈ q.nodes.valid, i ∈ up) (hstandbys : q.standbys.Nodup)
    (hstandbysUp : ∀ i ∈ q.standbys, i ∈ up) (hstandby : ∀ i, ∀ m ∈ p.standby i, Skipped m)
    (hnew : ∀ i, new i = if i ∈ q.nodes.valid then { x.slots i with tstate := status i } else x.slots i)
    (h : x.relay.Ahead up fun i => only q.nodes.valid (fun i => statusBody (status i)) i ++
      (only q.standbys (fun i => if (new i).tstate = 84 then
        wire (p.standby i) ++ readyMessage (p.standbyStatus i) else []) i ++ rest i)) :
    ∃ y, x.tellReady fresh q = (.continue, y) ∧
      Reaches up x rest
        ([.toFrontend (readyMessage (new q.stateNode).tstate)] ++
          q.standbys.flatMap fun i => if (new i).tstate = 84 then commitActions q i else [])
        (fun i => if i ∈ q.standbys ∧ (new i).tstate = 84 then
          { new i with tstate := p.standbyStatus i } else new i)
        x.mismatchNtuples y := by
  obtain ⟨r, hr, hword⟩ := readMessageLength_of_ahead fresh q.nodes (length_htonl 5) ntohl_five hup
    h.split
  have hturn : ∀ i ∈ q.nodes.valid, Turn up _ x.slots _ _ _ i := fun i hi =>
    turn_keepStatus fresh status (hup i hi)
  obtain ⟨y, hy, hreach⟩ := forNodes_spec (x := { x with relay := r }) q.nodes.nodup_valid hturn
    (fun _ _ => rfl) hword.ahead
  have hslots : y.slots = new := by
    rw [hreach.slots]
    funext i
    rw [hnew]
  -- the client is told
  generalize hz : ({ y with relay := y.relay.act [.toFrontend (90 :: (htonl 5 ++
    [(y.slots q.stateNode).tstate]))] } : Exchange) = z
  have hzslots : z.slots = new := by
    rw [← hz]
    exact hslots
  have hstand : ∀ i ∈ q.standbys, Turn up _ new _ _ _ i := fun i hi =>
    turn_commitStandby fresh q p.standbyStatus (hstandbysUp i hi)
      (hstandby i)
  have hzahead : z.relay.Ahead up fun i => only q.standbys (fun i => if (new i).tstate = 84 then
      wire (p.standby i) ++ readyMessage (p.standbyStatus i) else []) i ++ rest i := by
    rw [← hz]
    exact hreach.took.ahead.act
  obtain ⟨w, hw, hlast⟩ := forNodes_spec hstandbys hstand (fun i _ => congrFun hzslots i) hzahead
  refine ⟨w, ?_, ⟨hlast.took.ahead, ?_⟩, ?_, ?_⟩
  · simp only [tellReady, hr]
    rw [show forNodes (keepStatus fresh) q.nodes.valid { x with relay := r } = _ from hy]
    simp only [hz, hw]
  · have hact : z.relay.actions = x.relay.actions ++
        [.toFrontend (readyMessage (new q.stateNode).tstate)] := by
      rw [← hz, ← hslots]
      have hnone := (hword.trans hreach.took).actions
      rw [List.nil_append, show q.nodes.valid.flatMap (fun _ => ([] : List RelayAction)) = [] by simp,
        List.append_nil] at hnone
      exact congrArg (· ++ _) hnone
    rw [hlast.took.actions, hact, List.append_assoc]
  · rw [hlast.slots, hzslots]
    funext i
    by_cases hi : i ∈ q.standbys
    · simp only [hi, true_and, if_true]
    · simp only [hi, false_and, if_false]
  · rw [hlast.mismatch, ← hz]
    exact hreach.mismatch

variable (fresh) in
/-- With a mismatch or without. -/
theorem abortOnMismatch_of_ahead (hup : ∀ i ∈ q.nodes.valid, i ∈ up)
    (hfailover : x.mismatchNtuples = true → q.failover = false) (hlegal : p.Legal q x.mismatchNtuples)
    (h : x.relay.Ahead up fun i => only q.nodes.valid (fun i => if x.mismatchNtuples then
      statusBody (p.status i) ++ (wire (p.before i) ++ (p.error i).bytes ++
        (wire (p.behind i) ++ [90])) else []) i ++ rest i) :
    ∃ y, x.abortOnMismatch fresh q = (.continue, y) ∧
      Reaches up x rest (if x.mismatchNtuples then
        q.nodes.valid.flatMap fun i => sendSimplequeryMessage i errorQuery else []) x.slots false y := by
  cases hmismatch : x.mismatchNtuples with
  | true =>
    rw [hmismatch] at h hlegal
    simp only [if_true] at h ⊢
    exact abortOnMismatch_spec fresh hup hmismatch (hfailover hmismatch) hlegal h
  | false =>
    simp only [hmismatch, Bool.false_eq_true, if_false, only_nil, List.nil_append] at h ⊢
    refine ⟨x, ?_, .refl h, rfl, hmismatch⟩
    simp only [abortOnMismatch, hmismatch, Bool.false_eq_true, if_false]

variable (fresh) in
/-- Whether transactions may be ended now or not. -/
theorem endTransactions_of_ahead {s : NodeId → Slot} {status : NodeId → UInt8} (hs : x.slots = s)
    (hup : ∀ i ∈ q.nodes.valid, i ∈ up) (hcommit : ∀ i, ∀ m ∈ p.commit i, Skipped m)
    (h : x.relay.Ahead up fun i => only q.nodes.valid (fun i => if Closes q s i then
      statusBody (status i) ++ (wire (p.commit i) ++ [90]) else []) i ++ rest i) :
    ∃ y, (if q.allowCloseTransaction then x.endInternalTransaction fresh q
        else (.continue, x)) = (.continue, y) ∧
      Reaches up x rest ((q.nodes.others ++ [q.nodes.master]).flatMap fun i =>
          if Closes q s i then commitActions q i else [])
        (fun i => if i ∈ q.nodes.valid ∧ Closes q s i then
          { s i with isInternalTransactionStarted := false } else s i) x.mismatchNtuples y := by
  subst hs
  by_cases hallow : q.allowCloseTransaction = true
  · have hcloses : ∀ i, Closes q x.slots i ↔ Slot.Closing (x.slots i) := fun i => and_iff_right hallow
    simp only [hallow, if_true]
    simp only [hcloses] at h ⊢
    exact endInternalTransaction_spec fresh hup hcommit h
  · have hnot : ∀ i, ¬ Closes q x.slots i := fun i hc => hallow hc.1
    simp only [hnot, if_false, only_nil, List.nil_append] at h
    simp only [hallow, hnot, and_false, Bool.false_eq_true, if_false]
    refine ⟨x, rfl, ⟨h, ?_⟩, rfl, rfl⟩
    simp

variable (fresh) in
/-- **ReadyForQuery.**  Whatever pgpool asks the nodes on its own, the replies are read to the end, and
the client gets one message. -/
theorem readyForQuery_spec (hup : ∀ i ∈ q.nodes.valid, i ∈ up) (hstandbys : q.standbys.Nodup)
    (hstandbysUp : ∀ i ∈ q.standbys, i ∈ up) (hfailover : x.mismatchNtuples = true → q.failover = false)
    (hlegal : p.Legal q x.mismatchNtuples)
    (h : x.relay.Ahead up fun i =>
      only q.nodes.valid (fun i => (p.nodeBytes q x.mismatchNtuples x.slots i).tail) i ++
        (only q.standbys (p.standbyBytes q x.mismatchNtuples x.slots) i ++ rest i)) :
    ∃ y, x.readyForQuery fresh q = (.continue, y) ∧
      Reaches up x rest (p.actions q x.mismatchNtuples x.slots)
        (p.slotAtEnd q x.mismatchNtuples x.slots) false y := by
  simp only [nodeBytes_eq, List.tail_cons] at h
  obtain ⟨y, hy, hreach⟩ := abortOnMismatch_of_ahead fresh hup hfailover hlegal h.split
  obtain ⟨z, hz, hclosed⟩ := endTransactions_of_ahead fresh hreach.slots hup hlegal.commit
    hreach.took.ahead.split
  have hnew : ∀ i, p.slotAfter q x.mismatchNtuples x.slots i = if i ∈ q.nodes.valid then
      { z.slots i with tstate := p.lastStatus q x.mismatchNtuples x.slots i } else z.slots i := by
    intro i
    rw [hclosed.slots, slotAfter]
    by_cases hi : i ∈ q.nodes.valid
    · by_cases hc : Closes q x.slots i
      · simp only [hi, hc, true_and, if_true]
      · simp only [hi, hc, and_false, if_true, if_false]
    · simp only [hi, false_and, if_false]
  obtain ⟨w, hw, hlast⟩ := tellReady_spec (p := p) fresh hup hstandbys hstandbysUp hlegal.standby hnew
    hclosed.took.ahead
  have hthrough := (hreach.trans hclosed).trans hlast
  refine ⟨w, ?_, ?_, hthrough.slots, ?_⟩
  · unfold readyForQuery
    rw [hy]
    by_cases hallow : q.allowCloseTransaction = true
    · simp only [hallow, if_true] at hz ⊢
      simp only [hz, hw]
    · simp only [hallow, Bool.false_eq_true, if_false] at hz ⊢
      obtain rfl : y = z := congrArg Prod.snd hz
      exact hw
  · have htook := hthrough.took
    rw [← List.append_assoc] at htook
    exact htook
  · exact hlast.mismatch.trans (hclosed.mismatch.trans hreach.mismatch)

end

end Exchange

end PgPool
