import Mathlib.Data.List.Nodup
import PgPool.Config
import PgPool.Stream.Message

/-!
# Forwarding a message of the nodes

`read_kind_from_backend` and `SimpleForwardToFrontend`: a message is read from every node of the
current query, and that of the master is passed on.  The nodes' connections are streams; what is
written, and where the child waits, is kept in order.
-/

namespace PgPool

/-- What the child does to others.  Messages of its own are not spelled out. -/
inductive RelayAction where
  | toFrontend (bytes : List UInt8)
  | toBackend (i : NodeId) (bytes : List UInt8)
  | flush (i : NodeId)
  /-- `synchronize`: wait until the node has something to say. -/
  | wait (i : NodeId)
  /-- `pool_add_param`, for the pool. -/
  | addParam (packet : List UInt8)
  | errorMessage
  deriving DecidableEq, Repr

/-- The status that a function returns; `stop` is `POOL_END`. -/
inductive PoolStatus where
  | continue | stop | error
  deriving DecidableEq, Repr

/-- The nodes for which `VALID_BACKEND` holds; `MASTER_NODE_ID` is the first of them. -/
structure QueryNodes where
  master : NodeId
  others : List NodeId
  nodup : (master :: others).Nodup

namespace QueryNodes

variable {nodes : QueryNodes}

def valid (nodes : QueryNodes) : List NodeId := nodes.master :: nodes.others

/-- The one whose string is kept where one is read from each. -/
def last (nodes : QueryNodes) : NodeId := (nodes.master :: nodes.others).getLast (by simp)

theorem last_mem : nodes.last ∈ nodes.valid := List.getLast_mem _

end QueryNodes

/-- The connections of a child, and what it has done. -/
structure Relay where
  frontend : Stream
  backends : NodeId → Stream
  actions : List RelayAction

/-- Some error messages end a session: those whose severity is PANIC or FATAL, in any case. -/
def isFatalWord (word : List UInt8) : Bool :=
  let upper := word.map fun b => if 97 ≤ b ∧ b ≤ 122 then b - 32 else b
  upper == [80, 65, 78, 73, 67] || upper == [70, 65, 84, 65, 76]

/-- The fields of `is_panic_or_fatal_error`; `start` tells whether a field begins here. -/
def isPanicOrFatalError : Bool → List UInt8 → Bool
  | _, [] => false
  | true, b :: rest =>
      if b = 0 then false
      else b == 83 && isFatalWord (cString rest) || isPanicOrFatalError false rest
  | false, b :: rest => isPanicOrFatalError (b == 0) rest

namespace Relay

section

variable (fresh : Nat → UInt8) (nodes : QueryNodes) (r : Relay)

def setBackend (i : NodeId) (s : Stream) : Relay :=
  { r with backends := fun j => if j = i then s else r.backends j }

def act (actions : List RelayAction) : Relay := { r with actions := r.actions ++ actions }

/-- `pool_read` of a kind. -/
def readKind (i : NodeId) : Option (UInt8 × Relay) :=
  match (r.backends i).poolRead fresh 1 with
  | some ([kind], s) => some (kind, r.setBackend i s)
  | _ => none

/-- `pool_read` of a length word and `pool_read2` of the contents.  The latter returns a null pointer
as long as it has no buffer. -/
def readContents (i : NodeId) : Option (List UInt8 × Relay) :=
  match (r.backends i).poolRead fresh 4 with
  | none => none
  | some (word, s) =>
      match contentsSize word with
      | none => none
      | some len =>
          match s.poolRead2 len with
          | none => none
          | some (contents, s) =>
              if s.cp.bufsz2 = 0 then none else some (contents, r.setBackend i s)

/-- The same from some nodes, one after the other; nobody looks at the contents. -/
def readAllContents : List NodeId → Relay → Option Relay
  | [], r => some r
  | i :: rest, r =>
      match r.readContents fresh i with
      | none => none
      | some (_, r) => readAllContents rest r

/-- `SimpleForwardToFrontend`. -/
def simpleForwardToFrontend (kind : UInt8) : PoolStatus × Relay :=
  match r.readContents fresh nodes.master with
  | none => (.stop, r)
  | some (p1, r) =>
      match r.readAllContents fresh nodes.others with
      | none => (.stop, r)
      | some r =>
          let r := r.act [.toFrontend (kind :: (htonl (p1.length + 4) ++ p1))]
          if kind == 69 && isPanicOrFatalError true p1 then (.stop, r) else (.continue, r)

/-- The loop of `read_kind_from_backend` for one node: parameter statuses are read and discarded, but
for a note of the master's.  Every round takes some bytes of the stream. -/
def readKindLoop (i : NodeId) : Nat → Relay → Option (UInt8 × Relay)
  | 0, _ => none
  | fuel + 1, r =>
      match r.readKind fresh i with
      | none => none
      | some (kind, r) =>
          if kind ≠ 83 then some (kind, r)
          else
            match r.readContents fresh i with
            | none => none
            | some (p, r) =>
                readKindLoop i fuel (if i = nodes.master then r.act [.addParam p] else r)

/-- The kinds of some nodes. -/
def readKinds : List NodeId → Relay → Option (List UInt8 × Relay)
  | [], r => some ([], r)
  | i :: rest, r =>
      match readKindLoop fresh nodes i ((r.backends i).ahead.length + 1) r with
      | none => none
      | some (kind, r) =>
          match readKinds rest r with
          | none => none
          | some (kinds, r) => some (kind :: kinds, r)

/-- `read_kind_from_backend`.  Where the kinds differ, the ones in the minority, or other than the
master's, are reported: the client gets an error, and the session ends or goes on without that
reply. -/
def readKindFromBackend : PoolStatus × Option UInt8 × Relay :=
  match r.readKinds fresh nodes nodes.valid with
  | none => (.error, none, r)
  | some ([], r) => (.error, none, r)
  | some (kind :: kinds, r) =>
      if kinds.all (· == kind) then (.continue, some kind, r)
      else (.error, none, r.act [.errorMessage])

/-- `pool_read_kind`: no parameter status is expected.  What is logged for kinds that differ does not
change the streams. -/
def poolReadKind : Option (UInt8 × Relay) :=
  match r.readKind fresh nodes.master with
  | none => none
  | some (kind0, r) => go kind0 nodes.others r
where
  go (kind0 : UInt8) : List NodeId → Relay → Option (UInt8 × Relay)
    | [], r => some (kind0, r)
    | i :: rest, r =>
        match r.readKind fresh i with
        | none => none
        | some (kind, r) => if kind = kind0 then go kind0 rest r else none

/-- `ProcessBackendResponse` for a message that is just forwarded. -/
def processOther : PoolStatus × Relay :=
  match r.readKindFromBackend fresh nodes with
  | (status, none, r) => (status, r)
  | (_, some kind, r) => r.simpleForwardToFrontend fresh nodes kind

end

/-! ## Streams on which the messages are there -/

/-- What the node sends next.  Its connection has a buffer, from the parameters that the node has
sent at its start. -/
structure At (r : Relay) (i : NodeId) (bytes : List UInt8) : Prop where
  holds : (r.backends i).Holds bytes
  buffer : 0 < (r.backends i).cp.bufsz2

/-- Only the streams of some nodes have moved. -/
structure SameBut (l : List NodeId) (r t : Relay) : Prop where
  frontend : t.frontend = r.frontend
  actions : t.actions = r.actions
  backends : ∀ i, i ∉ l → t.backends i = r.backends i

variable {fresh : Nat → UInt8} {nodes : QueryNodes} {r t u : Relay} {i : NodeId} {l l' : List NodeId}
  {bytes : List UInt8} {kind : UInt8}

theorem SameBut.trans (h : SameBut l r t) (h' : SameBut l' t u) : SameBut (l ++ l') r u := by
  refine ⟨h'.frontend.trans h.frontend, h'.actions.trans h.actions, fun i hi => ?_⟩
  rw [List.mem_append, not_or] at hi
  rw [h'.backends i hi.2, h.backends i hi.1]

theorem SameBut.comp (h : SameBut l r t) (h' : SameBut l t u) : SameBut l r u := by
  refine ⟨h'.frontend.trans h.frontend, h'.actions.trans h.actions, fun i hi => ?_⟩
  rw [h'.backends i hi, h.backends i hi]

theorem SameBut.act {actions : List RelayAction} (h : SameBut l r t) :
    SameBut l (r.act actions) (t.act actions) := by
  refine ⟨h.frontend, ?_, h.backends⟩
  change t.actions ++ actions = r.actions ++ actions
  rw [h.actions]

theorem act_append (r : Relay) (a b : List RelayAction) : (r.act a).act b = r.act (a ++ b) := by
  unfold Relay.act
  rw [List.append_assoc]

/-- What is done in between comes between. -/
theorem SameBut.next {a b : List RelayAction} (h : SameBut l (r.act a) t)
    (h' : SameBut l (t.act b) u) : SameBut l (r.act (a ++ b)) u := by
  rw [← act_append]
  exact h.act.comp h'

theorem SameBut.at (h : SameBut l r t) (hi : i ∉ l) (hat : r.At i bytes) : t.At i bytes := by
  have hsame := h.backends i hi
  exact ⟨hsame ▸ hat.holds, hsame ▸ hat.buffer⟩

theorem SameBut.backends_others (h : SameBut [i] r t) (hi : i ∉ l) :
    ∀ j ∈ l, t.backends j = r.backends j := by
  intro j hj
  have hne : j ∉ [i] := by
    intro hji
    exact hi (List.mem_singleton.1 hji ▸ hj)
  exact h.backends j hne

/-- One node has been read: those behind it are where they were. -/
theorem SameBut.at_others {rest : NodeId → List UInt8} (h : SameBut [i] r t) (hi : i ∉ l)
    (hat : ∀ j ∈ i :: l, r.At j (rest j)) : ∀ j ∈ l, t.At j (rest j) := by
  intro j hj
  have hj' := hat j (List.mem_cons_of_mem _ hj)
  have hsame := h.backends_others hi j hj
  exact ⟨hsame ▸ hj'.holds, hsame ▸ hj'.buffer⟩

/-- Those behind it have been read, too. -/
theorem SameBut.at_cons {rest : NodeId → List UInt8} (h : SameBut l t u) (hi : i ∉ l)
    (hat : t.At i (rest i)) (hall : ∀ j ∈ l, u.At j (rest j)) : ∀ j ∈ i :: l, u.At j (rest j) := by
  intro j hj
  rcases List.mem_cons.1 hj with rfl | hj
  · exact h.at hi hat
  · exact hall j hj

theorem sameBut_setBackend (s : Stream) : SameBut [i] r (r.setBackend i s) := by
  refine ⟨rfl, rfl, fun j hj => ?_⟩
  exact if_neg (by simpa using hj)

theorem at_setBackend {s : Stream} (hs : s.Holds bytes) (hbuf : 0 < s.cp.bufsz2) :
    (r.setBackend i s).At i bytes := by
  have hself : (r.setBackend i s).backends i = s := if_pos rfl
  exact ⟨hself.symm ▸ hs, hself.symm ▸ hbuf⟩

theorem at_act {actions : List RelayAction} (h : r.At i bytes) : (r.act actions).At i bytes :=
  ⟨h.holds, h.buffer⟩

variable (fresh) in
theorem readKind_of_at (h : r.At i (kind :: bytes)) :
    ∃ t, r.readKind fresh i = some (kind, t) ∧ t.At i bytes ∧ SameBut [i] r t := by
  have hholds : (r.backends i).Holds ([kind] ++ bytes) := h.holds
  obtain ⟨s, hs, hrest, hbuf⟩ := hholds.poolRead fresh rfl
  refine ⟨r.setBackend i s, ?_, at_setBackend hrest (hbuf ▸ h.buffer), sameBut_setBackend s⟩
  unfold readKind
  rw [show ([kind] : List UInt8).length = 1 from rfl] at hs
  rw [hs]

variable (fresh) in
theorem readContents_of_at {m : WireMessage} (h : r.At i (m.body ++ bytes)) :
    ∃ t, r.readContents fresh i = some (m.contents, t) ∧ t.At i bytes ∧ SameBut [i] r t := by
  have hholds : (r.backends i).Holds (m.word ++ (m.contents ++ bytes)) := by
    rw [← List.append_assoc]
    exact h.holds
  obtain ⟨s, hs, hrest, hbuf⟩ := hholds.poolRead fresh m.length_word
  obtain ⟨s', hs', hrest', hbuf'⟩ := hrest.poolRead2 rfl
  have hpos : 0 < s'.cp.bufsz2 := hbuf' (hbuf ▸ h.buffer)
  refine ⟨r.setBackend i s', ?_, at_setBackend hrest' hpos, sameBut_setBackend s'⟩
  unfold readContents
  simp only [hs, m.contentsSize_word, hs', if_neg (Nat.ne_of_gt hpos)]

variable (fresh) in
theorem readAllContents_of_at {m : NodeId → WireMessage} {rest : NodeId → List UInt8} (hl : l.Nodup)
    (h : ∀ i ∈ l, r.At i ((m i).body ++ rest i)) :
    ∃ t, readAllContents fresh l r = some t ∧ (∀ i ∈ l, t.At i (rest i)) ∧ SameBut l r t := by
  induction l generalizing r with
  | nil => exact ⟨r, rfl, by simp, ⟨rfl, rfl, fun _ _ => rfl⟩⟩
  | cons i l ih =>
    obtain ⟨hi, hl⟩ := List.nodup_cons.1 hl
    obtain ⟨t, ht, hat, hsame⟩ := readContents_of_at fresh (h i (List.mem_cons_self ..))
    have hnext : ∀ j ∈ l, t.At j ((m j).body ++ rest j) := hsame.at_others hi h
    obtain ⟨u, hu, hall, hsame'⟩ := ih hl hnext
    refine ⟨u, ?_, ?_, hsame.trans hsame'⟩
    · simp only [readAllContents, ht, hu]
    · exact hsame'.at_cons hi hat hall

variable (fresh nodes kind) in
/-- **Forwarding**: one message is taken from every node, and the master's is passed on. -/
theorem simpleForwardToFrontend_of_at {m : NodeId → WireMessage} {rest : NodeId → List UInt8}
    (h : ∀ i ∈ nodes.valid, r.At i ((m i).body ++ rest i)) :
    ∃ t, r.simpleForwardToFrontend fresh nodes kind =
        (if kind == 69 && isPanicOrFatalError true (m nodes.master).contents then .stop
          else .continue, t) ∧
      (∀ i ∈ nodes.valid, t.At i (rest i)) ∧
      SameBut nodes.valid (r.act [.toFrontend (kind :: (m nodes.master).body)]) t := by
  obtain ⟨hmaster, hothers⟩ := List.nodup_cons.1 nodes.nodup
  obtain ⟨t, ht, hat, hsame⟩ :=
    readContents_of_at fresh (h nodes.master (List.mem_cons_self ..))
  have hnext : ∀ i ∈ nodes.others, t.At i ((m i).body ++ rest i) := by
    intro i hi
    have hne : i ∉ [nodes.master] := by
      intro him
      exact hmaster (List.mem_singleton.1 him ▸ hi)
    exact hsame.at hne (h i (List.mem_cons_of_mem _ hi))
  obtain ⟨u, hu, hall, hsame'⟩ := readAllContents_of_at fresh hothers hnext
  have hthrough := hsame.trans hsame'
  refine ⟨u.act [.toFrontend (kind :: (m nodes.master).body)], ?_, ?_, ?_⟩
  · simp only [simpleForwardToFrontend, ht, hu]
    split <;> rfl
  · intro i hi
    rcases List.mem_cons.1 hi with rfl | hi
    · exact at_act (hsame'.at hmaster hat)
    · exact at_act (hall i hi)
  · refine ⟨hthrough.frontend, ?_, hthrough.backends⟩
    change u.actions ++ _ = r.actions ++ _
    rw [hthrough.actions]

/-! ## The kind of a reply -/

variable (fresh) in
theorem poolReadKindGo_of_at {rest : NodeId → List UInt8} (hl : l.Nodup)
    (h : ∀ i ∈ l, r.At i (kind :: rest i)) :
    ∃ t, poolReadKind.go fresh kind l r = some (kind, t) ∧ (∀ i ∈ l, t.At i (rest i)) ∧
      SameBut l r t := by
  induction l generalizing r with
  | nil => exact ⟨r, rfl, by simp, rfl, rfl, fun _ _ => rfl⟩
  | cons i l ih =>
    obtain ⟨hi, hl⟩ := List.nodup_cons.1 hl
    obtain ⟨t, ht, hat, hsame⟩ := readKind_of_at fresh (h i (List.mem_cons_self ..))
    have hnext : ∀ j ∈ l, t.At j (kind :: rest j) := hsame.at_others hi h
    obtain ⟨u, hu, hall, hlast⟩ := ih hl hnext
    refine ⟨u, ?_, ?_, hsame.trans hlast⟩
    · simp only [poolReadKind.go, ht, if_true, hu]
    · exact hlast.at_cons hi hat hall

variable (fresh nodes) in
theorem poolReadKind_of_at {rest : NodeId → List UInt8}
    (h : ∀ i ∈ nodes.valid, r.At i (kind :: rest i)) :
    ∃ t, r.poolReadKind fresh nodes = some (kind, t) ∧ (∀ i ∈ nodes.valid, t.At i (rest i)) ∧
      SameBut nodes.valid r t := by
  obtain ⟨hmaster, hothers⟩ := List.nodup_cons.1 nodes.nodup
  obtain ⟨t, ht, hat, hsame⟩ := readKind_of_at fresh (h nodes.master (List.mem_cons_self ..))
  have hnext : ∀ i ∈ nodes.others, t.At i (kind :: rest i) := by
    intro i hi
    have hne : i ∉ [nodes.master] := by
      intro him
      exact hmaster (List.mem_singleton.1 him ▸ hi)
    exact hsame.at hne (h i (List.mem_cons_of_mem _ hi))
  obtain ⟨u, hu, hall, hlast⟩ := poolReadKindGo_of_at fresh hothers hnext
  refine ⟨u, ?_, ?_, hsame.trans hlast⟩
  · simp only [poolReadKind, ht, hu]
  · intro i hi
    rcases List.mem_cons.1 hi with rfl | hi
    · exact hlast.at hmaster hat
    · exact hall i hi

/-- What is noted of the parameter statuses that are discarded. -/
def noted (params : List WireMessage) : List RelayAction := params.map fun p => .addParam p.contents

variable (fresh nodes) in
theorem readKindLoop_of_at {params : List WireMessage} {fuel : Nat}
    (hparams : ∀ p ∈ params, p.kind = 83) (hkind : kind ≠ 83)
    (h : r.At i (wire params ++ kind :: bytes)) (hfuel : params.length < fuel) :
    ∃ t, readKindLoop fresh nodes i fuel r = some (kind, t) ∧ t.At i bytes ∧
      SameBut [i] (r.act (if i = nodes.master then noted params else [])) t := by
  induction params generalizing r fuel with
  | nil =>
    obtain ⟨t, ht, hat, hsame⟩ := readKind_of_at fresh h
    cases fuel with
    | zero => cases hfuel
    | succ fuel =>
      refine ⟨t, ?_, hat, hsame.frontend, ?_, hsame.backends⟩
      · simp only [readKindLoop, ht, if_pos hkind]
      · rw [hsame.actions]
        simp [Relay.act, noted]
  | cons p params ih =>
    have hp : p.kind = 83 := hparams p (List.mem_cons_self ..)
    have hhead : r.At i (p.kind :: (p.body ++ (wire params ++ kind :: bytes))) := by
      simpa [WireMessage.bytes] using h
    obtain ⟨t, ht, hat, hsame⟩ := readKind_of_at fresh hhead
    obtain ⟨u, hu, hat', hsame'⟩ := readContents_of_at fresh hat
    cases fuel with
    | zero => cases hfuel
    | succ fuel =>
      have hrest := fun q hq => hparams q (List.mem_cons_of_mem _ hq)
      have hlen := Nat.lt_of_succ_lt_succ hfuel
      have hthrough := hsame.trans hsame'
      by_cases hmaster : i = nodes.master
      · have hnext : (u.act [.addParam p.contents]).At i (wire params ++ kind :: bytes) := at_act hat'
        obtain ⟨v, hv, hat'', hlast⟩ := ih hrest hnext hlen
        refine ⟨v, ?_, hat'', ?_, ?_, ?_⟩
        · simp only [readKindLoop, ht, hp, hu, if_pos hmaster]
          exact hv
        · rw [hlast.frontend]
          exact hthrough.frontend
        · rw [hlast.actions, if_pos hmaster, if_pos hmaster, act_append]
          exact congrArg (· ++ ([RelayAction.addParam p.contents] ++ noted params)) hthrough.actions
        · intro j hj
          rw [hlast.backends j hj]
          exact hthrough.backends j (by simpa using hj)
      · obtain ⟨v, hv, hat'', hlast⟩ := ih hrest hat' hlen
        refine ⟨v, ?_, hat'', ?_, ?_, ?_⟩
        · simp only [readKindLoop, ht, hp, hu, if_neg hmaster]
          exact hv
        · rw [hlast.frontend]
          exact hthrough.frontend
        · rw [hlast.actions, if_neg hmaster, if_neg hmaster]
          exact congrArg (· ++ []) hthrough.actions
        · intro j hj
          rw [hlast.backends j hj]
          exact hthrough.backends j (by simpa using hj)

theorem length_lt_ahead {params : List WireMessage} (h : r.At i (wire params ++ kind :: bytes)) :
    params.length < (r.backends i).ahead.length + 1 := by
  have hwire : params.length ≤ (wire params).length := length_le_wire params
  rw [h.holds.ahead, List.length_append]
  omega

variable (fresh nodes) in
/-- Nodes other than the master. -/
theorem readKinds_of_at {params : NodeId → List WireMessage} {rest : NodeId → List UInt8}
    (hl : l.Nodup) (hmaster : nodes.master ∉ l) (hparams : ∀ i ∈ l, ∀ p ∈ params i, p.kind = 83)
    (hkind : kind ≠ 83) (h : ∀ i ∈ l, r.At i (wire (params i) ++ kind :: rest i)) :
    ∃ kinds t, readKinds fresh nodes l r = some (kinds, t) ∧ (∀ k ∈ kinds, k = kind) ∧
      (∀ i ∈ l, t.At i (rest i)) ∧ SameBut l r t := by
  induction l generalizing r with
  | nil => exact ⟨[], r, rfl, by simp, by simp, rfl, rfl, fun _ _ => rfl⟩
  | cons i l ih =>
    obtain ⟨hi, hl⟩ := List.nodup_cons.1 hl
    rw [List.mem_cons, not_or] at hmaster
    have hhead := h i (List.mem_cons_self ..)
    obtain ⟨t, ht, hat, hsame⟩ := readKindLoop_of_at fresh nodes
      (hparams i (List.mem_cons_self ..)) hkind hhead (length_lt_ahead hhead)
    rw [if_neg (Ne.symm hmaster.1)] at hsame
    have hsame' : SameBut [i] r t := by
      refine ⟨hsame.frontend, ?_, hsame.backends⟩
      rw [hsame.actions]
      exact List.append_nil _
    have hnext : ∀ j ∈ l, t.At j (wire (params j) ++ kind :: rest j) := hsame'.at_others hi h
    obtain ⟨kinds, u, hu, hall, hats, hlast⟩ := ih hl hmaster.2
      (fun j hj => hparams j (List.mem_cons_of_mem _ hj)) hnext
    refine ⟨kind :: kinds, u, ?_, ?_, ?_, hsame'.trans hlast⟩
    · simp only [readKinds, ht, hu]
    · intro k hk
      rcases List.mem_cons.1 hk with rfl | hk
      · rfl
      · exact hall k hk
    · exact hlast.at_cons hi hat hats

variable (fresh nodes) in
/-- The nodes agree on a kind; the parameter statuses before it are gone. -/
theorem readKindFromBackend_of_at (params : NodeId → List WireMessage) {rest : NodeId → List UInt8}
    (hparams : ∀ i ∈ nodes.valid, ∀ p ∈ params i, p.kind = 83) (hkind : kind ≠ 83)
    (h : ∀ i ∈ nodes.valid, r.At i (wire (params i) ++ kind :: rest i)) :
    ∃ t, r.readKindFromBackend fresh nodes = (.continue, some kind, t) ∧
      (∀ i ∈ nodes.valid, t.At i (rest i)) ∧
      SameBut nodes.valid (r.act (noted (params nodes.master))) t := by
  obtain ⟨hmaster, hothers⟩ := List.nodup_cons.1 nodes.nodup
  have hmem : nodes.master ∈ nodes.valid := List.mem_cons_self ..
  have hhead := h nodes.master hmem
  obtain ⟨t, ht, hat, hsame⟩ := readKindLoop_of_at fresh nodes (hparams nodes.master hmem) hkind hhead
    (length_lt_ahead hhead)
  rw [if_pos rfl] at hsame
  have hnext : ∀ i ∈ nodes.others, t.At i (wire (params i) ++ kind :: rest i) := by
    intro i hi
    have hne : i ∉ [nodes.master] := by
      intro him
      exact hmaster (List.mem_singleton.1 him ▸ hi)
    exact hsame.at hne (at_act (h i (List.mem_cons_of_mem _ hi)))
  obtain ⟨kinds, u, hu, hall, hats, hlast⟩ := readKinds_of_at fresh nodes hothers hmaster
    (fun i hi => hparams i (List.mem_cons_of_mem _ hi)) hkind hnext
  refine ⟨u, ?_, ?_, hsame.trans hlast⟩
  · have hsame : (kinds.all fun k => k == kind) = true := by
      rw [List.all_eq_true]
      intro k hk
      exact beq_iff_eq.2 (hall k hk)
    simp only [readKindFromBackend, QueryNodes.valid, readKinds, ht, hu, hsame, if_true]
  · intro i hi
    rcases List.mem_cons.1 hi with rfl | hi
    · exact hlast.at hmaster hat
    · exact hats i hi

end Relay

end PgPool
