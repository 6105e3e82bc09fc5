import PgPool.Relay.Ready

/-!
# Replies of the nodes

`ProcessBackendResponse` of `pool_proto_modules.c` for protocol V3, outside parallel mode: one reply of
the nodes at a time.  What it does to the session is modelled elsewhere; here are the streams, and what
the client gets.
-/

namespace PgPool

/-! ## Numbers of rows -/

/-- The digits at the start of a string. -/
def leadingNumber (s : List UInt8) : Int :=
  (s.takeWhile fun b => 48 ≤ b && b ≤ 57).foldl (fun n b => n * 10 + (b.toNat - 48 : Int)) 0

/-- With a sign or without. -/
def signedNumber : List UInt8 → Int
  | 45 :: s => -leadingNumber s
  | 43 :: s => leadingNumber s
  | s => leadingNumber s

/-- `atoi`: the conversion of `strtol`, cut to an `int`. -/
def atoi (string : List UInt8) : Int :=
  let value := signedNumber (string.dropWhile fun b => b == 32 || (9 ≤ b && b ≤ 13))
  (max (-2 ^ 63) (min value (2 ^ 63 - 1))).bmod (2 ^ 32)

/-- `strstr`: the string from the first occurrence on. -/
def strstr (needle : List UInt8) : List UInt8 → Option (List UInt8)
  | [] => if needle = [] then some [] else none
  | b :: s => if needle.isPrefixOf (b :: s) then some (b :: s) else strstr needle s

/-- `extract_ntuples`, on a command tag. -/
def extractNtuples (message : List UInt8) : Int :=
  let tag := cString message
  match (strstr [85, 80, 68, 65, 84, 69] tag).or (strstr [68, 69, 76, 69, 84, 69] tag) with
  | some rows => atoi (rows.drop 7)
  | none =>
      match strstr [73, 78, 83, 69, 82, 84] tag with
      | some rows => atoi ((rows.drop 7).dropWhile (· != 32))
      | none => 0

namespace Relay

variable (fresh : Nat → UInt8)

/-- The command tags of some nodes. -/
def readRows : List NodeId → Relay → Option (List Int × Relay)
  | [], r => some ([], r)
  | i :: rest, r =>
      match r.readContents fresh i with
      | none => none
      | some (p, r) =>
          match readRows rest r with
          | none => none
          | some (rows, r) => some (extractNtuples p :: rows, r)

/-- The message that executes a portal which does not exist, and a Flush. -/
def executeErrorPortal (i : NodeId) : List RelayAction :=
  let portal := "pgpool_error_portal".toList.map fun c => UInt8.ofNat c.toNat
  let contents := portal ++ [0, 0, 0, 0, 0]
  [.toBackend i (69 :: (htonl (contents.length + 4) ++ contents) ++ 72 :: htonl 4), .flush i]

/-- The loop of `do_error_execute_command`: other messages are kept to be put back.  The write position
moves by the size of a length word where the contents are copied. -/
def executeErrorLoop (i : NodeId) : Nat → Buffer → Nat → Nat → Relay → PoolStatus × Relay
  | 0, _, _, _, r => (.stop, r)
  | fuel + 1, buf, p, readlen, r =>
      match r.readKind fresh i with
      | none => (.stop, r)
      | some (kind, r) =>
          match r.readContents fresh i with
          | none => (.stop, r)
          | some (contents, r) =>
              if kind = 69 then
                if readlen = 0 then (.continue, r)
                else (.continue,
                  r.setBackend i ((r.backends i).poolUnread fresh (buf.read 0 readlen)))
              else
                let buf := (buf.write p [kind]).write (p + 1) (htonl (contents.length + 4))
                let readlen := readlen + 5 + contents.length
                if 8192 ≤ readlen then (.stop, r)
                else executeErrorLoop i fuel (buf.write (p + 5) contents) (p + 9) readlen r

/-- `do_error_execute_command`. -/
def doErrorExecuteCommand (i : NodeId) (r : Relay) : PoolStatus × Relay :=
  executeErrorLoop fresh i ((r.backends i).ahead.length + 1) ⟨8192, fresh⟩ 0 0
    (r.act (executeErrorPortal i))

end Relay

namespace Exchange

variable (fresh : Nat → UInt8) (q : QueryScene)

/-- The connections after something that concerns only the streams. -/
def lift (x : Exchange) (result : PoolStatus × Relay) : PoolStatus × Exchange :=
  (result.1, { x with relay := result.2 })

/-- `CommandComplete`. -/
def commandComplete (x : Exchange) : PoolStatus × Exchange :=
  let x := if q.beginsTransaction then
      { x with slots := fun i => if i ∈ q.nodes.valid then { x.slots i with tstate := 84 } else x.slots i }
    else x
  match x.relay.readContents fresh q.nodes.master with
  | none => (.stop, x)
  | some (p1, r) =>
      match r.readRows fresh q.nodes.others with
      | none => (.stop, x)
      | some (rows, r) =>
          let mismatch := x.mismatchNtuples || rows.any (· != extractNtuples p1)
          let reply := if mismatch then .errorMessage
            else .toFrontend (67 :: (htonl (p1.length + 4) ++ p1))
          (.continue, { x with relay := r.act [reply], mismatchNtuples := mismatch })

/-- The transaction is aborted on a node, in the way that suits the protocol. -/
def raiseError (i : NodeId) (x : Exchange) : PoolStatus × Exchange :=
  x.lift (if q.extended then x.relay.doErrorExecuteCommand fresh i else x.relay.doErrorCommand fresh i)

/-- `ErrorResponse3`. -/
def errorResponse3 (x : Exchange) : PoolStatus × Exchange :=
  match x.relay.simpleForwardToFrontend fresh q.nodes 69 with
  | (.continue, r) => forNodes (raiseError fresh q) q.errorNodes { x with relay := r }
  | result => x.lift result

/-- `CloseComplete`. -/
def closeComplete (x : Exchange) : PoolStatus × Exchange :=
  match x.relay.simpleForwardToFrontend fresh q.nodes 51 with
  | (status, r) => (if q.uncompletedMessage then status else .stop, { x with relay := r })

/-- The switch of `ProcessBackendResponse`.  The case for a parameter status is never taken. -/
def respond (kind : UInt8) (x : Exchange) : PoolStatus × Exchange :=
  match kind with
  | 71 => x.lift (x.relay.copyInResponse fresh q.nodes .v3)
  | 90 => x.readyForQuery fresh q
  | 51 => x.closeComplete fresh q
  | 69 => x.errorResponse3 fresh q
  | 67 => x.commandComplete fresh q
  | kind => x.lift (x.relay.simpleForwardToFrontend fresh q.nodes kind)

/-- `ProcessBackendResponse`. -/
def processBackendResponse (x : Exchange) : PoolStatus × Exchange :=
  match x.relay.readKindFromBackend fresh q.nodes with
  | (status, none, r) => (status, { x with relay := r })
  | (_, some kind, r) =>
      if kind = 0 then (.error, { x with relay := r }) else { x with relay := r }.respond fresh q kind

end Exchange

/-! ## What the nodes send, and what the client gets -/

/-- One reply of the nodes of the current query: parameter statuses, a message, and what they send when
pgpool then asks on its own. -/
structure NodeReply where
  scene : QueryScene
  params : NodeId → List WireMessage
  message : NodeId → WireMessage
  internal : ReadyReply

namespace NodeReply

variable (p : NodeReply) (slots : NodeId → Slot) (mismatch : Bool)

def kind : UInt8 := (p.message p.scene.nodes.master).kind

/-- The nodes report different numbers of rows. -/
def Differs : Prop := ∃ i ∈ p.scene.nodes.others,
  extractNtuples (p.message i).contents ≠ extractNtuples (p.message p.scene.nodes.master).contents

instance : Decidable p.Differs := inferInstanceAs (Decidable (∃ i ∈ _, _))

def mismatchAfter : Bool :=
  if p.kind = 90 then mismatch && p.scene.failover
  else if p.kind = 67 then mismatch || decide p.Differs
  else mismatch

def slotsAfter : NodeId → Slot :=
  if p.kind = 90 then
    if mismatch && p.scene.failover then slots else p.internal.slotAtEnd p.scene mismatch slots
  else if p.kind = 67 ∧ p.scene.beginsTransaction then
    fun i => if i ∈ p.scene.nodes.valid then { slots i with tstate := 84 } else slots i
  else slots

/-- The replies to pgpool's own queries. -/
def internalBytes (i : NodeId) : List UInt8 :=
  if p.kind = 90 then
    only p.scene.nodes.valid (p.internal.internalBytes p.scene mismatch slots) i ++
      only p.scene.standbys (p.internal.standbyBytes p.scene mismatch slots) i
  else if p.kind = 69 then
    only p.scene.errorNodes (fun i => wire (p.internal.before i) ++ (p.internal.error i).bytes) i
  else []

/-- What a node sends. -/
def sent (i : NodeId) : List UInt8 :=
  only p.scene.nodes.valid (fun i => wire (p.params i) ++ (p.message i).bytes) i ++
    p.internalBytes slots mismatch i

/-- What the client gets: the master's message, or what stands in its place. -/
def relayed : List RelayAction :=
  if p.kind = 90 then
    if mismatch && p.scene.failover then []
    else [.toFrontend
      (readyMessage (p.internal.slotAfter p.scene mismatch slots p.scene.stateNode).tstate)]
  else if p.kind = 67 ∧ p.mismatchAfter mismatch then [.errorMessage]
  else [.toFrontend (p.message p.scene.nodes.master).bytes]

/-- The session may end here: with an error that is fatal, in the middle of a COPY from the client, or
when nodes are degenerated. -/
def MayEnd : Prop :=
  p.kind = 69 ∧ isPanicOrFatalError true (p.message p.scene.nodes.master).contents = true ∨
    p.kind = 71 ∨ p.kind = 90 ∧ mismatch = true ∧ p.scene.failover = true

/-- The nodes send messages of the same kind, and replies such as the protocol has them. -/
structure Legal (up : List NodeId) : Prop where
  valid : ∀ i ∈ p.scene.nodes.valid, i ∈ up
  standbys : p.scene.standbys.Nodup ∧ ∀ i ∈ p.scene.standbys, i ∈ up
  errorNodes : p.scene.errorNodes.Nodup ∧ ∀ i ∈ p.scene.errorNodes, i ∈ up
  params : ∀ i ∈ p.scene.nodes.valid, ∀ m ∈ p.params i, m.kind = 83
  message : ∀ i ∈ p.scene.nodes.valid, (p.message i).kind = p.kind
  kind : p.kind ≠ 83 ∧ p.kind ≠ 0
  ready : p.kind = 90 → p.internal.Legal p.scene mismatch ∧
    ∀ i ∈ p.scene.nodes.valid, (p.message i).contents = [p.internal.status i]
  error : p.kind = 69 → ∀ i ∈ p.scene.errorNodes, (∀ m ∈ p.internal.before i, m.kind ≠ 69) ∧
    (p.internal.error i).kind = 69 ∧ (p.scene.extended = true → p.internal.before i = [])
  close : p.kind = 51 → p.scene.uncompletedMessage = true

end NodeReply

/-- What the client has got, but for the parameter by which it is polled. -/
def told (actions : List RelayAction) : List RelayAction :=
  actions.filter fun a =>
    match a with
    | .toFrontend bytes => bytes != Relay.dummyParameter
    | .errorMessage => true
    | _ => false

@[simp] theorem told_append (a b : List RelayAction) : told (a ++ b) = told a ++ told b :=
  List.filter_append _ _

@[simp] theorem told_nil : told [] = [] := rfl

/-- What has been asked of a node. -/
def requests (i : NodeId) (actions : List RelayAction) : List (List UInt8) :=
  actions.filterMap fun a =>
    match a with
    | .toBackend j bytes => if j = i then some bytes else none
    | _ => none

@[simp] theorem requests_append (i : NodeId) (a b : List RelayAction) :
    requests i (a ++ b) = requests i a ++ requests i b := List.filterMap_append

theorem requests_noted (i : NodeId) (params : List WireMessage) :
    requests i (Relay.noted params) = [] := by
  induction params with
  | nil => rfl
  | cons m params ih => exact ih

theorem told_toFrontend {kind : UInt8} {bytes : List UInt8} (h : kind ≠ 83) :
    told [.toFrontend (kind :: bytes)] = [.toFrontend (kind :: bytes)] := by
  have hne : ((kind :: bytes) != Relay.dummyParameter) = true := by
    rw [bne_iff_ne]
    intro heq
    exact h (List.cons.inj heq).1
  unfold told
  rw [List.filter_cons_of_pos (by simpa using hne)]
  rfl

theorem told_flatMap {l : List NodeId} {f : NodeId → List RelayAction} (h : ∀ i ∈ l, told (f i) = []) :
    told (l.flatMap f) = [] := by
  induction l with
  | nil => rfl
  | cons i l ih =>
    rw [List.flatMap_cons, told_append, h i (List.mem_cons_self ..),
      ih fun j hj => h j (List.mem_cons_of_mem _ hj)]
    rfl

theorem told_noted (params : List WireMessage) : told (Relay.noted params) = [] := by
  induction params with
  | nil => rfl
  | cons m params ih => exact ih

theorem told_sendSimplequeryMessage (i : NodeId) (query : List UInt8) :
    told (Relay.sendSimplequeryMessage i query) = [] := rfl

theorem told_commitActions (q : QueryScene) (i : NodeId) : told (Exchange.commitActions q i) = [] := by
  unfold Exchange.commitActions
  rw [told_append, told_sendSimplequeryMessage, List.nil_append]
  induction q.polls i with
  | zero => rfl
  | succ n ih =>
    rw [List.replicate_succ]
    have hdrop : told [.toFrontend Relay.dummyParameter] = [] := by
      unfold told
      rw [List.filter_cons_of_neg (by simp)]
      rfl
    change told ([_] ++ List.replicate n _) = []
    rw [told_append, hdrop, ih]
    rfl

/-- Of all that is done for ReadyForQuery, the client sees one message. -/
theorem told_readyActions (p : ReadyReply) (q : QueryScene) (mismatch : Bool) (s : NodeId → Slot) :
    told (p.actions q mismatch s) =
      [.toFrontend (readyMessage (p.slotAfter q mismatch s q.stateNode).tstate)] := by
  have herror : told (if mismatch then
      q.nodes.valid.flatMap fun i => Relay.sendSimplequeryMessage i Relay.errorQuery else []) = [] := by
    split
    · exact told_flatMap fun i _ => told_sendSimplequeryMessage i _
    · rfl
  have hclose : told ((q.nodes.others ++ [q.nodes.master]).flatMap fun i =>
      if ReadyReply.Closes q s i then Exchange.commitActions q i else []) = [] := by
    refine told_flatMap fun i _ => ?_
    split
    · exact told_commitActions q i
    · rfl
  have hstandby : told (q.standbys.flatMap fun i =>
      if (p.slotAfter q mismatch s i).tstate = 84 then Exchange.commitActions q i else []) = [] := by
    refine told_flatMap fun i _ => ?_
    split
    · exact told_commitActions q i
    · rfl
  unfold ReadyReply.actions
  rw [told_append, told_append, told_append, herror, hclose, hstandby, List.append_nil, List.nil_append]
  have hready : (90 : UInt8) ≠ 83 := by decide
  exact told_toFrontend hready

/-! ## One reply -/

namespace Exchange

open Relay

section

variable {fresh : Nat → UInt8} {up : List NodeId} {x : Exchange} {r : Relay} {p : NodeReply} {i : NodeId}
  {rest : NodeId → List UInt8}

/-- What a function makes of the rest of a reply whose kind has been read.  What is asked matters for
ReadyForQuery. -/
structure Responds (p : NodeReply) (up : List NodeId) (x : Exchange) (rest : NodeId → List UInt8)
    (result : PoolStatus × Exchange) : Prop where
  told : told result.2.relay.actions =
    told x.relay.actions ++ p.relayed x.slots x.mismatchNtuples
  goes : result.1 = .continue → result.2.relay.Ahead up rest ∧
    result.2.slots = p.slotsAfter x.slots x.mismatchNtuples ∧
      result.2.mismatchNtuples = p.mismatchAfter x.mismatchNtuples
  asked : ∀ i, p.kind = 90 ∨ p.kind = 67 →
    requests i result.2.relay.actions = requests i x.relay.actions ++
      if p.kind = 90 ∧ (x.mismatchNtuples && p.scene.failover) = false then
        requests i (p.internal.actions p.scene x.mismatchNtuples x.slots)
      else []
  ends : result.1 ≠ .continue → p.MayEnd x.mismatchNtuples

variable (fresh) in
theorem simpleForwardToFrontend_of_ahead {nodes : QueryNodes} {m : NodeId → WireMessage} (kind : UInt8)
    (hup : ∀ i ∈ nodes.valid, i ∈ up)
    (h : r.Ahead up fun i => only nodes.valid (fun i => (m i).body) i ++ rest i) :
    ∃ t, r.simpleForwardToFrontend fresh nodes kind =
        (if kind == 69 && isPanicOrFatalError true (m nodes.master).contents then .stop
          else .continue, t) ∧
      Took up r rest [.toFrontend (kind :: (m nodes.master).body)] t := by
  obtain ⟨t, ht, hall, hsame⟩ := simpleForwardToFrontend_of_at fresh nodes kind fun i hi => h.mem hup hi
  exact ⟨t, ht, Took.of_sameBut h hall hsame⟩

theorem master_mem (nodes : QueryNodes) : nodes.master ∈ nodes.valid := List.mem_cons_self ..

theorem NodeReply.bytes_master : (p.message p.scene.nodes.master).bytes =
    p.kind :: (p.message p.scene.nodes.master).body := rfl

variable (fresh) in
/-- A kind that is only forwarded. -/
theorem responds_forward (hlegal : p.Legal x.mismatchNtuples up) (hready : p.kind ≠ 90)
    (herror : p.kind ≠ 69) (hcomplete : p.kind ≠ 67)
    (h : x.relay.Ahead up fun i => only p.scene.nodes.valid (fun i => (p.message i).body) i ++
      (p.internalBytes x.slots x.mismatchNtuples i ++ rest i)) :
    ∃ t, x.relay.simpleForwardToFrontend fresh p.scene.nodes p.kind = (.continue, t) ∧
      Took up x.relay rest [.toFrontend (p.message p.scene.nodes.master).bytes] t ∧
        Responds p up x rest (.continue, { x with relay := t }) := by
  have hnone : ∀ i, p.internalBytes x.slots x.mismatchNtuples i = [] := by
    intro i
    rw [NodeReply.internalBytes, if_neg hready, if_neg herror]
  simp only [hnone, List.nil_append] at h
  obtain ⟨t, ht, htook⟩ := simpleForwardToFrontend_of_ahead fresh p.kind hlegal.valid h
  have hnot : (p.kind == 69) = false := by simpa using herror
  simp only [hnot, Bool.false_and, Bool.false_eq_true, if_false] at ht
  refine ⟨t, ht, htook, ?_, fun _ => ⟨htook.ahead, ?_, ?_⟩, ?_, fun hne => absurd rfl hne⟩
  · change told t.actions = _
    rw [htook.actions, told_append, NodeReply.relayed, if_neg hready, if_neg fun hc => hcomplete hc.1,
      NodeReply.bytes_master, told_toFrontend hlegal.kind.1]
  · rw [NodeReply.slotsAfter, if_neg hready, if_neg fun hc => hcomplete hc.1]
  · rw [NodeReply.mismatchAfter, if_neg hready, if_neg hcomplete]
  · intro i hor
    exact (hor.elim hready hcomplete).elim

/-- Data from the client goes to the nodes. -/
theorem forwardCopyMessage_told {nodes : QueryNodes} {t : Relay} {kind : UInt8}
    (h : r.forwardCopyMessage fresh nodes = some (kind, t)) :
    t.backends = r.backends ∧ told t.actions = told r.actions := by
  have hforward : ∀ contents, told (simpleForwardToBackend nodes kind contents) = [] := fun contents =>
    told_flatMap fun i _ => rfl
  unfold forwardCopyMessage at h
  split at h
  · split at h
    · cases h
    · split at h
      · obtain ⟨rfl, rfl⟩ := Prod.mk.inj (Option.some.inj h)
        exact ⟨rfl, rfl⟩
      · obtain ⟨rfl, rfl⟩ := Prod.mk.inj (Option.some.inj h)
        refine ⟨rfl, ?_⟩
        change told (r.actions ++ _) = _
        rw [told_append, hforward, List.append_nil]
      · split at h
        · cases h
        · obtain ⟨rfl, rfl⟩ := Prod.mk.inj (Option.some.inj h)
          refine ⟨rfl, ?_⟩
          change told (r.actions ++ _) = _
          rw [told_append, hforward, List.append_nil]
  · cases h

variable (fresh r) in
theorem copyInLoop3_told (nodes : QueryNodes) (fuel : Nat) :
    (copyInLoop3 fresh nodes fuel r).2.backends = r.backends ∧
      told (copyInLoop3 fresh nodes fuel r).2.actions = told r.actions := by
  induction fuel generalizing r with
  | zero => exact ⟨rfl, rfl⟩
  | succ fuel ih =>
    unfold copyInLoop3
    cases hround : r.forwardCopyMessage fresh nodes with
    | none => exact ⟨rfl, rfl⟩
    | some result =>
      obtain ⟨kind, t⟩ := result
      obtain ⟨hback, htold⟩ := forwardCopyMessage_told hround
      simp only
      split
      · obtain ⟨hback', htold'⟩ := ih t
        exact ⟨hback'.trans hback, htold'.trans htold⟩
      · exact ⟨hback, htold⟩

variable (fresh r) in
theorem copyDataRows_told (nodes : QueryNodes) :
    (copyDataRows fresh nodes .v3 true r).2.backends = r.backends ∧
      told (copyDataRows fresh nodes .v3 true r).2.actions = told r.actions := by
  obtain ⟨hback, htold⟩ := copyInLoop3_told fresh r nodes (r.frontend.ahead.length + 1)
  unfold copyDataRows
  simp only [if_true]
  generalize copyInLoop3 fresh nodes _ r = result at hback htold
  obtain ⟨status, t⟩ := result
  cases status with
  | «continue» =>
    refine ⟨hback, ?_⟩
    change told (t.actions ++ _) = _
    have hnone : told (synchronizeAll nodes) = [] := told_flatMap fun i _ => rfl
    rw [told_append, hnone, List.append_nil]
    exact htold
  | stop => exact ⟨hback, htold⟩
  | error => exact ⟨hback, htold⟩

variable (fresh) in
theorem readRows_of_at {m : NodeId → WireMessage} {l : List NodeId} (hl : l.Nodup)
    (h : ∀ i ∈ l, r.At i ((m i).body ++ rest i)) :
    ∃ t, r.readRows fresh l = some (l.map fun i => extractNtuples (m i).contents, t) ∧
      (∀ i ∈ l, t.At i (rest i)) ∧ SameBut l r t := by
  induction l generalizing r with
  | nil => exact ⟨r, rfl, by simp, rfl, rfl, fun _ _ => rfl⟩
  | cons i l ih =>
    obtain ⟨hi, hl⟩ := List.nodup_cons.1 hl
    obtain ⟨t, ht, hat, hsame⟩ := readContents_of_at fresh (h i (List.mem_cons_self ..))
    have hnext : ∀ j ∈ l, t.At j ((m j).body ++ rest j) := hsame.at_others hi h
    obtain ⟨u, hu, hall, hlast⟩ := ih hl hnext
    refine ⟨u, ?_, ?_, hsame.trans hlast⟩
    · simp only [readRows, ht, hu, List.map_cons]
    · exact hlast.at_cons hi hat hall

variable (fresh) in
/-- **CommandComplete**: the numbers of rows are compared. -/
theorem responds_commandComplete (hlegal : p.Legal x.mismatchNtuples up) (hkind : p.kind = 67)
    (h : x.relay.Ahead up fun i => only p.scene.nodes.valid (fun i => (p.message i).body) i ++
      (p.internalBytes x.slots x.mismatchNtuples i ++ rest i)) :
    ∃ t, x.commandComplete fresh p.scene = (.continue, t) ∧
      Responds p up x rest (.continue, t) := by
  have hready : p.kind ≠ 90 := by
    rw [hkind]
    decide
  have herror : p.kind ≠ 69 := by
    rw [hkind]
    decide
  have hnone : ∀ i, p.internalBytes x.slots x.mismatchNtuples i = [] := by
    intro i
    rw [NodeReply.internalBytes, if_neg hready, if_neg herror]
  simp only [hnone, List.nil_append] at h
  obtain ⟨hmaster, hothers⟩ := List.nodup_cons.1 p.scene.nodes.nodup
  obtain ⟨t, ht, hat, hsame⟩ := readContents_of_at fresh (h.mem hlegal.valid (master_mem _))
  have hnext : ∀ i ∈ p.scene.nodes.others, t.At i ((p.message i).body ++ rest i) := by
    intro i hi
    have hne : i ∉ [p.scene.nodes.master] := by
      intro him
      exact hmaster (List.mem_singleton.1 him ▸ hi)
    exact hsame.at hne (h.mem hlegal.valid (List.mem_cons_of_mem _ hi))
  obtain ⟨u, hu, hall, hlast⟩ := readRows_of_at fresh hothers hnext
  have hboth : SameBut p.scene.nodes.valid x.relay u := hsame.trans hlast
  have htook : Took up x.relay rest [] u := by
    refine Took.of_sameBut h (fun i hi => ?_) hboth.noAct
    rcases List.mem_cons.1 hi with rfl | hi
    · exact hlast.at hmaster hat
    · exact hall i hi
  have hdiffers : (p.scene.nodes.others.map fun i => extractNtuples (p.message i).contents).any
      (· != extractNtuples (p.message p.scene.nodes.master).contents) = decide p.Differs := by
    rw [Bool.eq_iff_iff, List.any_map, List.any_eq_true, decide_eq_true_iff, NodeReply.Differs]
    simp only [Function.comp_apply, bne_iff_ne]
  have hmismatch : p.mismatchAfter x.mismatchNtuples =
      (x.mismatchNtuples || decide p.Differs) := by
    rw [NodeReply.mismatchAfter, if_neg hready, if_pos hkind]
  have hslots : p.slotsAfter x.slots x.mismatchNtuples = if p.scene.beginsTransaction then
      (fun i => if i ∈ p.scene.nodes.valid then { x.slots i with tstate := 84 } else x.slots i)
        else x.slots := by
    unfold NodeReply.slotsAfter
    rw [if_neg hready]
    simp only [hkind, true_and]
  have hbytes : (67 :: (htonl ((p.message p.scene.nodes.master).contents.length + 4) ++
      (p.message p.scene.nodes.master).contents)) = (p.message p.scene.nodes.master).bytes := by
    rw [NodeReply.bytes_master, hkind]
    rfl
  refine ⟨⟨u.act [if p.mismatchAfter x.mismatchNtuples then .errorMessage
      else .toFrontend (p.message p.scene.nodes.master).bytes],
    p.slotsAfter x.slots x.mismatchNtuples, p.mismatchAfter x.mismatchNtuples⟩, ?_, ?_,
    fun _ => ⟨htook.ahead.act, rfl, rfl⟩, fun i _ => ?_, fun hne => absurd rfl hne⟩
  · by_cases hbegins : p.scene.beginsTransaction = true
    · simp only [commandComplete, hslots, hbegins, if_true, ht, hu, hdiffers, ← hmismatch, hbytes]
    · simp only [commandComplete, hslots, hbegins, Bool.false_eq_true, if_false, ht, hu, hdiffers,
        ← hmismatch, hbytes]
  · change told (u.actions ++ _) = _
    rw [told_append, htook.actions, List.append_nil, NodeReply.relayed, if_neg hready]
    by_cases hdiff : p.mismatchAfter x.mismatchNtuples = true
    · rw [if_pos hdiff, if_pos ⟨hkind, hdiff⟩]
      rfl
    · rw [if_neg hdiff, if_neg fun hc => hdiff hc.2, NodeReply.bytes_master, told_toFrontend hlegal.kind.1]
  · simp only [hready, false_and, if_false, List.append_nil]
    change requests i (u.actions ++ _) = _
    rw [requests_append, htook.actions, List.append_nil]
    split <;> exact List.append_nil _

variable (fresh) in
/-- The failing Execute, and the error in reply. -/
theorem turn_raiseError {s : NodeId → Slot} (hi : i ∈ up)
    (hbefore : ∀ m ∈ p.internal.before i, m.kind ≠ 69) (herror : (p.internal.error i).kind = 69)
    (hextended : p.scene.extended = true → p.internal.before i = []) :
    Turn up (raiseError fresh p.scene) s
      (fun i => wire (p.internal.before i) ++ (p.internal.error i).bytes)
      (fun i => if p.scene.extended then executeErrorPortal i else sendSimplequeryMessage i errorQuery)
      s i := by
  intro y rest hs h
  by_cases hext : p.scene.extended = true
  · have hat := ahead_single h hi
    rw [hextended hext, wire_nil, List.nil_append] at hat
    have hsent : (y.relay.act (executeErrorPortal i)).At i _ := at_act hat
    rw [WireMessage.bytes, herror] at hsent
    obtain ⟨t, ht, hbody, hsame⟩ := readKind_of_at fresh hsent
    obtain ⟨u, hu, hrest, hsame'⟩ := readContents_of_at fresh hbody
    refine ⟨{ y with relay := u }, ?_, ?_, ?_, rfl⟩
    · simp only [raiseError, lift, hext, if_true, doErrorExecuteCommand, executeErrorLoop, ht, hu]
    · simp only [hext, if_true]
      refine Took.of_sameBut h (fun j hj => ?_) (hsame.comp hsame')
      rw [List.mem_singleton.1 hj]
      exact hrest
    · rw [← hs, Function.update_eq_self]
  · have hsimple : Turn up _ s _ _ s i := turn_errorCommand fresh hi hbefore herror
    obtain ⟨z, hz, hreach⟩ := hsimple y rest hs h
    have hat := ahead_single h hi
    rw [List.append_assoc] at hat
    have hfuel : (p.internal.before i).length < (y.relay.backends i).ahead.length + 1 := by
      have hwire := length_le_wire (p.internal.before i)
      rw [hat.holds.ahead, List.length_append]
      omega
    have hsent : (y.relay.act (sendSimplequeryMessage i errorQuery)).At i _ := at_act hat
    obtain ⟨t, ht, -, -⟩ := skipToError_of_at fresh hbefore herror hsent hfuel
    refine ⟨z, ?_, ?_⟩
    · have hstatus : (y.relay.doErrorCommand fresh i).1 = .continue := by
        rw [doErrorCommand, ht]
      simp only [raiseError, lift, hext, Bool.false_eq_true, if_false, hstatus]
      exact hz
    · simp only [hext, Bool.false_eq_true, if_false]
      exact hreach

variable (fresh) in
/-- **ErrorResponse.**  The transactions on other nodes are aborted too. -/
theorem responds_errorResponse3 (hlegal : p.Legal x.mismatchNtuples up) (hkind : p.kind = 69)
    (h : x.relay.Ahead up fun i => only p.scene.nodes.valid (fun i => (p.message i).body) i ++
      (p.internalBytes x.slots x.mismatchNtuples i ++ rest i)) :
    Responds p up x rest (x.errorResponse3 fresh p.scene) := by
  have hready : p.kind ≠ 90 := by
    rw [hkind]
    decide
  have hcomplete : p.kind ≠ 67 := by
    rw [hkind]
    decide
  simp only [NodeReply.internalBytes, if_neg hready, if_pos hkind] at h
  obtain ⟨t, ht, htook⟩ := simpleForwardToFrontend_of_ahead fresh p.kind hlegal.valid h
  have hrelayed : p.relayed x.slots x.mismatchNtuples =
      [.toFrontend (p.message p.scene.nodes.master).bytes] := by
    rw [NodeReply.relayed, if_neg hready, if_neg fun hc => hcomplete hc.1]
  have htold : told t.actions = told x.relay.actions ++ p.relayed x.slots x.mismatchNtuples := by
    rw [htook.actions, told_append, hrelayed, NodeReply.bytes_master, told_toFrontend hlegal.kind.1]
  rw [hkind] at ht
  by_cases hfatal : isPanicOrFatalError true (p.message p.scene.nodes.master).contents = true
  · have hstop : x.errorResponse3 fresh p.scene = (.stop, { x with relay := t }) := by
      unfold errorResponse3
      rw [ht]
      simp only [hfatal, beq_self_eq_true, Bool.and_self, if_true, lift]
    rw [hstop]
    refine ⟨htold, ?_, fun _ hor => (hor.elim hready hcomplete).elim, fun _ => .inl ⟨hkind, hfatal⟩⟩
    intro hgo
    cases hgo
  · have hturn : ∀ i ∈ p.scene.errorNodes, Turn up _ x.slots _ _ x.slots i := fun i hi =>
      turn_raiseError fresh (hlegal.errorNodes.2 i hi) (hlegal.error hkind i hi).1
        (hlegal.error hkind i hi).2.1 (hlegal.error hkind i hi).2.2
    obtain ⟨y, hy, hreach⟩ := forNodes_spec (x := { x with relay := t }) hlegal.errorNodes.1 hturn
      (fun _ _ => rfl) htook.ahead
    have hgo : x.errorResponse3 fresh p.scene = (.continue, y) := by
      unfold errorResponse3
      rw [ht]
      simp only [Bool.not_eq_true] at hfatal
      simp only [hfatal, Bool.and_false, Bool.false_eq_true, if_false, hy]
    rw [hgo]
    refine ⟨?_, fun _ => ⟨hreach.took.ahead, ?_, ?_⟩, fun _ hor => (hor.elim hready hcomplete).elim,
      fun hne => absurd rfl hne⟩
    · have hnone : told (p.scene.errorNodes.flatMap fun i => if p.scene.extended then
          executeErrorPortal i else sendSimplequeryMessage i errorQuery) = [] := by
        refine told_flatMap fun i _ => ?_
        split <;> rfl
      rw [hreach.took.actions, told_append, hnone, List.append_nil]
      exact htold
    · rw [hreach.slots, NodeReply.slotsAfter, if_neg hready, if_neg fun hc => hcomplete hc.1]
      funext i
      split <;> rfl
    · rw [NodeReply.mismatchAfter, if_neg hready, if_neg hcomplete]
      exact hreach.mismatch

variable (fresh) in
/-- **CopyInResponse**: the session may end while the client sends its data. -/
theorem responds_copyInResponse (hlegal : p.Legal x.mismatchNtuples up) (hkind : p.kind = 71)
    (h : x.relay.Ahead up fun i => only p.scene.nodes.valid (fun i => (p.message i).body) i ++
      (p.internalBytes x.slots x.mismatchNtuples i ++ rest i)) :
    Responds p up x rest (x.lift (x.relay.copyInResponse fresh p.scene.nodes .v3)) := by
  have hready : p.kind ≠ 90 := by
    rw [hkind]
    decide
  have herror : p.kind ≠ 69 := by
    rw [hkind]
    decide
  have hcomplete : p.kind ≠ 67 := by
    rw [hkind]
    decide
  obtain ⟨t, ht, htook, hresponds⟩ := responds_forward fresh hlegal hready herror hcomplete h
  rw [hkind] at ht
  have hcopy : x.relay.copyInResponse fresh p.scene.nodes .v3 =
      copyDataRows fresh p.scene.nodes .v3 true t := by
    unfold copyInResponse copyResponse
    simp only [ht]
  obtain ⟨hback, htold⟩ := copyDataRows_told fresh t p.scene.nodes
  rw [hcopy]
  refine ⟨htold.trans hresponds.told, fun _ => ⟨fun i hi => ?_, ?_, ?_⟩,
    fun _ hor => (hor.elim hready hcomplete).elim, fun _ => .inr (.inl hkind)⟩
  · have hat := htook.ahead i hi
    have hsame := congrFun hback i
    exact ⟨hsame.symm ▸ hat.holds, hsame.symm ▸ hat.buffer⟩
  · exact (hresponds.goes rfl).2.1
  · exact (hresponds.goes rfl).2.2

variable (fresh) in
theorem responds_readyForQuery (hlegal : p.Legal x.mismatchNtuples up) (hkind : p.kind = 90)
    (h : x.relay.Ahead up fun i => only p.scene.nodes.valid (fun i => (p.message i).body) i ++
      (p.internalBytes x.slots x.mismatchNtuples i ++ rest i)) :
    Responds p up x rest (x.readyForQuery fresh p.scene) := by
  obtain ⟨hready, hstatus⟩ := hlegal.ready hkind
  by_cases hend : (x.mismatchNtuples && p.scene.failover) = true
  · obtain ⟨hmismatch, hfailover⟩ := Bool.and_eq_true_iff.1 hend
    have hstop : x.readyForQuery fresh p.scene = (.stop, x) := by
      unfold readyForQuery abortOnMismatch
      rw [if_pos hmismatch, if_pos hfailover]
    rw [hstop]
    refine ⟨?_, ?_, fun i _ => ?_, fun _ => .inr (.inr ⟨hkind, hmismatch, hfailover⟩)⟩
    · rw [NodeReply.relayed, if_pos hkind, if_pos hend, List.append_nil]
    · intro hgo
      cases hgo
    · simp only [hend, Bool.true_eq_false, and_false, if_false, List.append_nil]
  · have hahead : x.relay.Ahead up fun i => only p.scene.nodes.valid
        (fun i => (p.internal.nodeBytes p.scene x.mismatchNtuples x.slots i).tail) i ++
        (only p.scene.standbys (p.internal.standbyBytes p.scene x.mismatchNtuples x.slots) i ++
          rest i) := by
      intro i hi
      have hat := h i hi
      simp only [NodeReply.internalBytes, if_pos hkind] at hat
      by_cases hmem : i ∈ p.scene.nodes.valid
      · have hbody : (p.message i).body = statusBody (p.internal.status i) := by
          rw [WireMessage.body, WireMessage.word, hstatus i hmem]
          rfl
        simp only [only_mem hmem, ReadyReply.nodeBytes, readyMessage, hbody] at hat ⊢
        simpa using hat
      · simp only [only_not_mem hmem] at hat ⊢
        exact hat
    have hfailover : x.mismatchNtuples = true → p.scene.failover = false := by
      intro hmismatch
      rw [hmismatch, Bool.true_and] at hend
      exact Bool.eq_false_iff.2 hend
    obtain ⟨y, hy, hreach⟩ := readyForQuery_spec fresh hlegal.valid hlegal.standbys.1
      hlegal.standbys.2 hfailover hready hahead
    rw [hy]
    refine ⟨?_, fun _ => ⟨hreach.took.ahead, ?_, ?_⟩, fun i _ => ?_, fun hne => absurd rfl hne⟩
    · rw [hreach.took.actions, told_append, told_readyActions, NodeReply.relayed, if_pos hkind,
        if_neg hend]
    · rw [hreach.slots, NodeReply.slotsAfter, if_pos hkind, if_neg hend]
    · rw [hreach.mismatch, NodeReply.mismatchAfter, if_pos hkind]
      exact (Bool.eq_false_iff.2 hend).symm
    · rw [if_pos ⟨hkind, Bool.eq_false_iff.2 hend⟩, hreach.took.actions, requests_append]

variable (fresh) in
/-- **One reply**, of any kind. -/
theorem responds_processBackendResponse (hlegal : p.Legal x.mismatchNtuples up)
    (h : x.relay.Ahead up fun i => p.sent x.slots x.mismatchNtuples i ++ rest i) :
    Responds p up x rest (x.processBackendResponse fresh p.scene) := by
  have hmem : ∀ i ∈ p.scene.nodes.valid, x.relay.At i (wire (p.params i) ++ p.kind ::
      ((p.message i).body ++ (p.internalBytes x.slots x.mismatchNtuples i ++ rest i))) := by
    intro i hi
    have hat := h i (hlegal.valid i hi)
    simp only [NodeReply.sent, only_mem hi, WireMessage.bytes, hlegal.message i hi] at hat
    simpa using hat
  obtain ⟨r, hr, hall, hsame⟩ := readKindFromBackend_of_at fresh p.scene.nodes p.params hlegal.params
    hlegal.kind.1 hmem
  have hbody : r.Ahead up fun i => only p.scene.nodes.valid (fun i => (p.message i).body) i ++
      (p.internalBytes x.slots x.mismatchNtuples i ++ rest i) := by
    intro i hi
    by_cases hi' : i ∈ p.scene.nodes.valid
    · simpa only [only_mem hi'] using hall i hi'
    · have hat := h i hi
      simp only [NodeReply.sent, only_not_mem hi', List.nil_append] at hat ⊢
      exact hsame.at hi' (at_act hat)
  -- the master's parameter statuses are noted, and nobody is told
  have hnoted : told r.actions = told x.relay.actions := by
    rw [hsame.actions]
    change told (x.relay.actions ++ _) = _
    rw [told_append, told_noted, List.append_nil]
  have hrest : ∀ result, Responds p up { x with relay := r } rest result →
      Responds p up x rest result := by
    intro result hresponds
    refine ⟨?_, hresponds.goes, fun i hor => ?_, hresponds.ends⟩
    · rw [hresponds.told]
      exact congrArg (· ++ _) hnoted
    · rw [hresponds.asked i hor]
      refine congrArg (· ++ _) ?_
      change requests i r.actions = _
      rw [hsame.actions]
      change requests i (x.relay.actions ++ _) = _
      rw [requests_append, requests_noted, List.append_nil]
  have hprocess : x.processBackendResponse fresh p.scene =
      { x with relay := r }.respond fresh p.scene p.kind := by
    unfold processBackendResponse
    rw [hr]
    exact if_neg hlegal.kind.2
  rw [hprocess]
  apply hrest
  by_cases hcopy : p.kind = 71
  · simp only [respond, hcopy]
    exact responds_copyInResponse fresh hlegal hcopy hbody
  by_cases hready : p.kind = 90
  · simp only [respond, hready]
    exact responds_readyForQuery fresh hlegal hready hbody
  by_cases herror : p.kind = 69
  · simp only [respond, herror]
    exact responds_errorResponse3 fresh hlegal herror hbody
  by_cases hcomplete : p.kind = 67
  · obtain ⟨t, ht, hresponds⟩ := responds_commandComplete (x := { x with relay := r }) fresh hlegal
      hcomplete hbody
    simp only [respond, hcomplete]
    rw [ht]
    exact hresponds
  obtain ⟨t, ht, -, hresponds⟩ := responds_forward (x := { x with relay := r }) fresh hlegal hready herror
    hcomplete hbody
  by_cases hclose : p.kind = 51
  · rw [hclose] at ht
    simp only [respond, hclose, closeComplete, ht, hlegal.close hclose, if_true]
    exact hresponds
  · have hplain : { x with relay := r }.respond fresh p.scene p.kind =
        { x with relay := r }.lift (r.simpleForwardToFrontend fresh p.scene.nodes p.kind) := by
      unfold respond
      split
      · exact absurd ‹_› hcopy
      · exact absurd ‹_› hready
      · exact absurd ‹_› hclose
      · exact absurd ‹_› herror
      · exact absurd ‹_› hcomplete
      · rfl
    rw [hplain, ht]
    exact hresponds

end

/-! ## A sequence of replies -/

variable (fresh : Nat → UInt8) in
/-- Replies, one after the other, until the session ends. -/
def processReplies : List NodeReply → Exchange → PoolStatus × Exchange
  | [], x => (.continue, x)
  | p :: ps, x =>
      match x.processBackendResponse fresh p.scene with
      | (.continue, x) => processReplies ps x
      | result => result

/-- What a node sends in all. -/
def sentAll : List NodeReply → (NodeId → Slot) → Bool → NodeId → List UInt8
  | [], _, _, _ => []
  | p :: ps, slots, mismatch, i =>
      p.sent slots mismatch i ++ sentAll ps (p.slotsAfter slots mismatch) (p.mismatchAfter mismatch) i

/-- What the client gets in all. -/
def relayedAll : List NodeReply → (NodeId → Slot) → Bool → List RelayAction
  | [], _, _ => []
  | p :: ps, slots, mismatch =>
      p.relayed slots mismatch ++ relayedAll ps (p.slotsAfter slots mismatch) (p.mismatchAfter mismatch)

def LegalAll (up : List NodeId) : List NodeReply → Bool → Prop
  | [], _ => True
  | p :: ps, mismatch => p.Legal mismatch up ∧ LegalAll up ps (p.mismatchAfter mismatch)

/-- The messages of the master, as they are. -/
def masterMessages (ps : List NodeReply) : List RelayAction :=
  ps.flatMap fun p => (p.params p.scene.nodes.master ++ [p.message p.scene.nodes.master]).map fun m =>
    .toFrontend m.bytes

/-- The client gets what some replies come to, the last of which may have ended the session; or all
replies have been read, and nothing behind them. -/
def Relays (up : List NodeId) (x : Exchange) (ps : List NodeReply) (rest : NodeId → List UInt8)
    (result : PoolStatus × Exchange) : Prop :=
  ∃ done pending, ps = done ++ pending ∧
    told result.2.relay.actions = told x.relay.actions ++ relayedAll done x.slots x.mismatchNtuples ∧
    (result.1 = .continue → pending = [] ∧ result.2.relay.Ahead up rest) ∧
    (result.1 ≠ .continue → ∃ front last mismatch, done = front ++ [last] ∧ last.MayEnd mismatch)

variable {fresh : Nat → UInt8} {up : List NodeId} {x : Exchange} {rest : NodeId → List UInt8}

/-- **The client gets the master's messages**, message for message: without the parameter statuses, with
an error in place of a command tag after nodes have reported different numbers of rows, and with one
ReadyForQuery whatever pgpool has asked the nodes before. -/
theorem processReplies_relays (ps : List NodeReply) (hlegal : LegalAll up ps x.mismatchNtuples)
    (h : x.relay.Ahead up fun i => sentAll ps x.slots x.mismatchNtuples i ++ rest i) :
    Relays up x ps rest (x.processReplies fresh ps) := by
  induction ps generalizing x with
  | nil =>
    refine ⟨[], [], rfl, (List.append_nil _).symm, fun _ => ⟨rfl, ?_⟩, fun hne => absurd rfl hne⟩
    intro i hi
    change x.relay.At i (rest i)
    simpa only [sentAll, List.nil_append] using h i hi
  | cons p ps ih =>
    obtain ⟨hfirst, hothers⟩ := hlegal
    have hahead : x.relay.Ahead up fun i => p.sent x.slots x.mismatchNtuples i ++
        (sentAll ps (p.slotsAfter x.slots x.mismatchNtuples) (p.mismatchAfter x.mismatchNtuples) i ++
          rest i) := by
      intro i hi
      have hat := h i hi
      simp only [sentAll, List.append_assoc] at hat
      exact hat
    have hresponds := responds_processBackendResponse fresh hfirst hahead
    generalize hresult : x.processBackendResponse fresh p.scene = result at hresponds
    obtain ⟨status, y⟩ := result
    have hone : ∀ status, status ≠ .continue → x.processReplies fresh (p :: ps) = (status, y) →
        p.MayEnd x.mismatchNtuples → Relays up x (p :: ps) rest (x.processReplies fresh (p :: ps)) := by
      intro status hne hstop hend
      rw [hstop]
      refine ⟨[p], ps, rfl, ?_, fun hgo => absurd hgo hne, fun _ => ⟨[], p, _, rfl, hend⟩⟩
      rw [hresponds.told]
      simp only [relayedAll, List.append_nil]
    cases status with
    | «continue» =>
      obtain ⟨hnext, hslots, hmismatch⟩ := hresponds.goes rfl
      have htold := hresponds.told
      simp only at hnext hslots hmismatch htold
      rw [← hslots, ← hmismatch] at hnext
      rw [← hmismatch] at hothers
      obtain ⟨done, pending, hsplit, hmore, hgoes, hends⟩ := ih hothers hnext
      have hprocess : x.processReplies fresh (p :: ps) = y.processReplies fresh ps := by
        simp only [processReplies, hresult]
      rw [hprocess]
      refine ⟨p :: done, pending, ?_, ?_, hgoes, ?_⟩
      · rw [hsplit]
        rfl
      · rw [hmore, htold, relayedAll, hslots, hmismatch, List.append_assoc]
      · intro hne
        obtain ⟨front, last, mismatch, hdone, hend⟩ := hends hne
        exact ⟨p :: front, last, mismatch, by rw [hdone]; rfl, hend⟩
    | stop =>
      have hne : PoolStatus.stop ≠ .continue := nofun
      exact hone .stop hne (by simp only [processReplies, hresult]) (hresponds.ends hne)
    | error =>
      have hne : PoolStatus.error ≠ .continue := nofun
      exact hone .error hne (by simp only [processReplies, hresult]) (hresponds.ends hne)

/-! ## Streams with some bytes -/

/-- A connection on which some bytes arrive, four at a time. -/
def nodeStream (bytes : List UInt8) : Stream :=
  ⟨{ PoolConnection.opened (fun _ => 0) with bufsz2 := 1024 }, ⟨bytes, List.replicate bytes.length 3⟩⟩

/-- A child to which the nodes send some bytes; they are idle. -/
def receiving (slots : NodeId → Slot) (bytes : NodeId → List UInt8) : Exchange where
  relay := ⟨nodeStream [], fun i => nodeStream (bytes i), []⟩
  slots := slots
  mismatchNtuples := false

theorem receiving_ahead {slots : NodeId → Slot} {bytes : NodeId → List UInt8} (up : List NodeId) :
    (receiving slots bytes).relay.Ahead up bytes := by
  intro i _
  refine ⟨⟨rfl, ?_⟩, Nat.zero_lt_succ 1023⟩
  change (bytes i).length ≤ (List.replicate _ 3).length
  rw [List.length_replicate]

/-- The scene of a query that one node or two execute. -/
def sceneOf (nodes : QueryNodes) : QueryScene where
  nodes := nodes
  stateNode := 0
  allowCloseTransaction := true
  failover := false
  beginsTransaction := false
  errorNodes := []
  extended := false
  standbys := []
  uncompletedMessage := false
  polls := fun _ => 0

theorem fits_error : ([] : List UInt8).length + 4 < 2 ^ 31 := by decide

/-- The nodes are idle, and pgpool asks nothing. -/
def idle : ReadyReply where
  status := fun _ => 73
  before := fun _ => []
  error := fun _ => ⟨69, [], fits_error⟩
  behind := fun _ => []
  aborted := fun _ => 73
  commit := fun _ => []
  committed := fun _ => 73
  standby := fun _ => []
  standbyStatus := fun _ => 73

theorem idle_legal (q : QueryScene) (mismatch : Bool) : idle.Legal q mismatch where
  status := fun _ _ _ => rfl
  ascii := by
    change (73 : UInt8) < 128
    decide
  before := fun _ _ h => absurd h List.not_mem_nil
  error := fun _ => rfl
  behind := fun _ _ => rfl
  other := fun _ h => absurd h List.not_mem_nil
  commit := fun _ _ h => absurd h List.not_mem_nil
  standby := fun _ _ h => absurd h List.not_mem_nil

/-- A message of every node, after some parameter statuses of each. -/
def replyOf (nodes : QueryNodes) (params : List WireMessage) (m : WireMessage) : NodeReply where
  scene := sceneOf nodes
  params := fun _ => params
  message := fun _ => m
  internal := idle

theorem replyOf_legal {nodes : QueryNodes} {params : List WireMessage} {m : WireMessage}
    {up : List NodeId} {mismatch : Bool} (hup : ∀ i ∈ nodes.valid, i ∈ up)
    (hparams : ∀ m ∈ params, m.kind = 83) (hkind : m.kind ≠ 83 ∧ m.kind ≠ 0 ∧ m.kind ≠ 51)
    (hready : m.kind = 90 → m.contents = [73]) :
    (replyOf nodes params m).Legal mismatch up where
  valid := hup
  standbys := ⟨List.nodup_nil, fun _ h => absurd h List.not_mem_nil⟩
  errorNodes := ⟨List.nodup_nil, fun _ h => absurd h List.not_mem_nil⟩
  params := fun _ _ => hparams
  message := fun _ _ => rfl
  kind := ⟨hkind.1, hkind.2.1⟩
  ready := fun h => ⟨idle_legal _ _, fun _ _ => hready h⟩
  error := fun _ _ h => absurd h List.not_mem_nil
  close := fun h => absurd h hkind.2.2

/-- A change of a parameter, a notice, a command tag and ReadyForQuery. -/
def appName : WireMessage := ⟨83, [97, 0, 98, 0], by decide⟩
def notice : WireMessage := ⟨78, [77, 120, 0, 0], by decide⟩
def selected : WireMessage := ⟨67, [83, 69, 76, 69, 67, 84, 32, 49, 0], by decide⟩
def readyIdle : WireMessage := ⟨90, [73], by decide⟩

theorem nodup_bothNodes : ([0, 1] : List NodeId).Nodup := by decide

def bothNodes : QueryNodes := ⟨0, [1], nodup_bothNodes⟩

def statement : List NodeReply :=
  [replyOf bothNodes [] notice, replyOf bothNodes [appName] selected, replyOf bothNodes [] readyIdle]

theorem statement_legal : LegalAll [0, 1] statement false := by
  have hup : ∀ i ∈ bothNodes.valid, i ∈ [0, 1] := fun _ h => h
  refine ⟨replyOf_legal hup (by simp) (by decide) (by decide), ?_, ?_, trivial⟩
  · exact replyOf_legal hup (by simp [appName]) (by decide) (by decide)
  · exact replyOf_legal hup (by simp) (by decide) (by decide)

/-- Two nodes execute a query that changes a parameter. -/
theorem statement_relays :
    Relays [0, 1] (receiving (fun _ => ⟨73, false⟩) fun i =>
        sentAll statement (fun _ => ⟨73, false⟩) false i ++ []) statement (fun _ => [])
      ((receiving (fun _ => ⟨73, false⟩) fun i =>
        sentAll statement (fun _ => ⟨73, false⟩) false i ++ []).processReplies (fun _ => 0) statement) :=
  processReplies_relays statement statement_legal (receiving_ahead _)

/-- The parameter status does not get through to the client. -/
theorem parameterStatus_not_relayed :
    LegalAll [0, 1] statement false ∧
      told ((receiving (fun _ => ⟨73, false⟩) fun i =>
        sentAll statement (fun _ => ⟨73, false⟩) false i).processReplies (fun _ => 0)
          statement).2.relay.actions ≠ masterMessages statement := by
  refine ⟨statement_legal, ?_⟩
  decide +kernel

end Exchange

end PgPool
