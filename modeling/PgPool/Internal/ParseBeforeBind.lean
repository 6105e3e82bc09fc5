import PgPool.Majority.Kinds

/-!
# Parsing again before a Bind

`parse_before_bind`: the Parse of a statement is sent to the nodes that have not parsed it yet, and their
messages are read and discarded until a ParseComplete is among them.  A node that has sent an
ErrorResponse sends nothing more until the Sync.
-/

namespace PgPool.Internal

open Majority

/-! ## The source -/

/-- A legal reply to a Parse that is followed by a Flush: notices (78) and parameter statuses (83), then
ParseComplete (49) or ErrorResponse (69). -/
inductive ParseReply : List WireMessage → Prop
  | last {m} (kind : m.kind = 49 ∨ m.kind = 69) : ParseReply [m]
  | cons {m rest} (kind : m.kind = 78 ∨ m.kind = 83) (tail : ParseReply rest) : ParseReply (m :: rest)

/-- A node: its entry in the map of the query, whether the query has been parsed there, and what it says
to the Parse if that is sent.  The nodes of the map are up, from `pool_where_to_send`. -/
structure ParseNode where
  whereToSend : Bool
  parsed : Bool
  /-- The statement ends a transaction, and the node is a standby that is in none. -/
  commitSkips : Bool
  reply : List WireMessage
  legal : ParseReply reply

/-- `per_node_error_log`: a notice or an error that comes first is looked at.  It is put back unless it is
too long for the buffer. -/
def perNodeErrorLog : List WireMessage → List WireMessage
  | [] => []
  | m :: rest =>
    if (m.kind = 69 ∨ m.kind = 78) ∧ peekBufSz ≤ m.bytes.length then rest else m :: rest

/-- The Parse goes to the node: it stays in the map, and `pool_send_and_wait` does not take it out. -/
def ParseNode.asked (node : ParseNode) : Bool :=
  node.whereToSend && !node.parsed && !node.commitSkips

/-- What can be read from the node while the map is the one that was changed. -/
def ParseNode.stream (node : ParseNode) : Option (List WireMessage) :=
  if node.asked then some (perNodeErrorLog node.reply) else none

def skipParameterStatus (messages : List WireMessage) : List WireMessage :=
  messages.dropWhile fun m => m.kind = 83

/-- `pool_discard_packet_contents` after the kinds have been read. -/
def discardMessage (messages : List WireMessage) : List WireMessage :=
  (skipParameterStatus messages).tail

/-- The loop.  Every round takes a message of each node; `none`: it waits for messages that do not
come.  Where the kinds differ, the contents have not been read. -/
def readToParseComplete (stopOnMismatch : Bool) (master : Nat) :
    Nat → List (Option (List WireMessage)) → Option (KindStatus × List (Option (List WireMessage)))
  | 0, _ => none
  | fuel + 1, streams =>
    match readKindFromBackend stopOnMismatch master streams with
    | none => none
    | some result =>
      if result.status = .continue then
        let streams := streams.map (Option.map discardMessage)
        if result.decidedKind = some 49 then some (.continue, streams)
        else readToParseComplete stopOnMismatch master fuel streams
      else some (result.status, streams.map (Option.map skipParameterStatus))

/-- The messages of all nodes. -/
def pending (streams : List (Option (List WireMessage))) : Nat :=
  (streams.map fun stream => (stream.getD []).length).sum

/-- `parse_before_bind`, with what the nodes' connections then hold.  The map is put back in the end. -/
def parseBeforeBind (stopOnMismatch : Bool) (master : Nat) (nodes : List ParseNode) :
    Option (KindStatus × List (Option (List WireMessage))) :=
  let streams := nodes.map ParseNode.stream
  if nodes.any ParseNode.asked then
    readToParseComplete stopOnMismatch master (pending streams + 1) streams
  else some (.continue, streams)

/-! ## What is claimed -/

/-- The function returns, and nothing of the replies is left. -/
def Ends (result : Option (KindStatus × List (Option (List WireMessage)))) : Prop :=
  ∃ status streams, result = some (status, streams) ∧
    ∀ messages, some messages ∈ streams → messages = []

/-! ## The condition -/

def notices (messages : List WireMessage) : Nat := messages.countP fun m => m.kind = 78

/-- A reply ends with ParseComplete. -/
def Completes (messages : List WireMessage) : Prop := ∃ m ∈ messages, m.kind = 49

instance (messages : List WireMessage) : Decidable (Completes messages) :=
  inferInstanceAs (Decidable (∃ m ∈ messages, m.kind = 49))

/-- The replies end with ParseComplete after the same number of notices. -/
def CompleteAlike (streams : List (Option (List WireMessage))) : Prop :=
  ∃ n, ∀ messages, some messages ∈ streams → Completes messages ∧ notices messages = n

/-! ## A round of the loop -/

variable {stopOnMismatch : Bool} {master fuel : Nat} {m : WireMessage} {messages : List WireMessage}
  {streams : List (Option (List WireMessage))} {kind : UInt8}

/-- What is left of a reply: its last messages, or nothing. -/
def Rest (messages : List WireMessage) : Prop := messages = [] ∨ ParseReply messages

theorem rest_perNodeErrorLog (h : ParseReply messages) : Rest (perNodeErrorLog messages) := by
  cases messages with
  | nil => exact .inl rfl
  | cons m rest =>
    by_cases hlong : (m.kind = 69 ∨ m.kind = 78) ∧ peekBufSz ≤ m.bytes.length
    · rw [perNodeErrorLog, if_pos hlong]
      cases h with
      | last kind => exact .inl rfl
      | cons kind tail => exact .inr tail
    · rw [perNodeErrorLog, if_neg hlong]
      exact .inr h

/-- A reply of which nothing is left but ParseComplete or ErrorResponse, or one with a notice. -/
theorem ParseReply.readKind_cases (h : ParseReply messages) :
    (readKind messages = some 78 ∧ ParseReply (discardMessage messages) ∧
        (Completes (discardMessage messages) ↔ Completes messages) ∧
        notices messages = notices (discardMessage messages) + 1) ∨
      (readKind messages = some 49 ∧ discardMessage messages = [] ∧ Completes messages ∧
        notices messages = 0) ∨
      (readKind messages = some 69 ∧ discardMessage messages = [] ∧ ¬ Completes messages) := by
  induction h with
  | @last m kind =>
    obtain hkind | hkind := kind
    · right; left
      simp [readKind, discardMessage, skipParameterStatus, Completes, notices, hkind]
    · right; right
      simp [readKind, discardMessage, skipParameterStatus, Completes, hkind]
  | @cons m rest kind tail ih =>
    obtain hkind | hkind := kind
    · left
      simp [readKind, discardMessage, skipParameterStatus, Completes, notices, hkind, tail]
    · have hread : readKind (m :: rest) = readKind rest := by simp [readKind, hkind]
      have hdiscard : discardMessage (m :: rest) = discardMessage rest := by
        simp [discardMessage, skipParameterStatus, hkind]
      have hcompletes : Completes (m :: rest) ↔ Completes rest := by simp [Completes, hkind]
      have hnotices : notices (m :: rest) = notices rest := by simp [notices, hkind]
      rwa [hread, hdiscard, hcompletes, hnotices]

theorem length_discardMessage_lt (h : ParseReply messages) :
    (discardMessage messages).length < messages.length := by
  induction h with
  | @last m kind => obtain hkind | hkind := kind <;> simp [discardMessage, skipParameterStatus, hkind]
  | @cons m rest kind tail ih =>
    obtain hkind | hkind := kind
    · simp [discardMessage, skipParameterStatus, hkind]
    · simp only [discardMessage, skipParameterStatus, hkind, List.dropWhile_cons, decide_true, if_true,
        List.length_cons] at ih ⊢
      omega

theorem ParseReply.readKind_isSome (h : ParseReply messages) : (readKind messages).isSome = true := by
  obtain ⟨hkind, -⟩ | ⟨hkind, -⟩ | ⟨hkind, -⟩ := h.readKind_cases <;> simp [hkind]

theorem ParseReply.skipParameterStatus_ne_nil (h : ParseReply messages) :
    skipParameterStatus messages ≠ [] := by
  induction h with
  | @last m kind => obtain hkind | hkind := kind <;> simp [skipParameterStatus, hkind]
  | @cons m rest kind tail ih =>
    obtain hkind | hkind := kind
    · simp [skipParameterStatus, hkind]
    · simpa [skipParameterStatus, hkind] using ih

theorem mem_firstKinds :
    kind ∈ executed (firstKinds streams) ↔
      ∃ messages, some messages ∈ streams ∧ readKind messages = some kind := by
  unfold executed firstKinds
  simp only [List.mem_filterMap, List.mem_map, id_eq, exists_eq_right]
  constructor
  · intro ⟨stream, hmem, hkind⟩
    obtain ⟨messages, rfl, hread⟩ := Option.bind_eq_some_iff.mp hkind
    exact ⟨messages, hmem, hread⟩
  · intro ⟨messages, hmem, hread⟩
    exact ⟨some messages, hmem, hread⟩

theorem readKinds_eq_none {t : Tally} (hmem : some [] ∈ streams) : readKinds streams t = none := by
  induction streams generalizing t with
  | nil => cases hmem
  | cons stream rest ih =>
    obtain rfl | hrest := List.mem_cons.mp hmem
    · rfl
    · cases stream with
      | none => rw [readKinds, ih hrest, Option.map_none]
      | some messages =>
        unfold readKinds
        split
        · rfl
        · rw [ih hrest, Option.map_none]

/-- Where the kinds differ, some node does not have the one that is trusted. -/
theorem degenerateNode_ne_nil {kinds : List (Option UInt8)} {t : Tally}
    (hcounted : Counted (executed kinds) t) (hdiffer : ¬ Agreed kinds) (hpos : 0 ∉ executed kinds) :
    degenerateNode kinds t master ≠ [] := by
  have hne : t.maxCount ≠ t.numExecutedNodes := fun h => hdiffer (hcounted.agreed_iff.mpr h)
  obtain ⟨trusted, htrust⟩ : ∃ trusted, trustKind kinds t master = some trusted := by
    unfold trustKind
    rw [if_pos hne]
    split
    · exact ⟨_, rfl⟩
    · exact ⟨_, rfl⟩
  intro hnil
  refine hdiffer ?_
  have hall : ∀ k ∈ executed kinds, k = trusted := by
    intro k hk
    by_contra hneq
    obtain ⟨i, hi⟩ := mem_executed.mp hk
    have hmem := (mem_degenerateNode hne htrust).mpr ⟨k, hi, fun h => hpos (h ▸ hk), hneq⟩
    rw [hnil] at hmem
    cases hmem
  intro k hk k' hk'
  rw [hall k hk, hall k' hk']

/-- One round: the kinds are the same, and it is the one that is decided for; or the function ends. -/
theorem readKindFromBackend_replies (stopOnMismatch : Bool) (master : Nat)
    (hall : ∀ messages, some messages ∈ streams → ParseReply messages)
    (hsome : ∃ messages, some messages ∈ streams) :
    ∃ result, readKindFromBackend stopOnMismatch master streams = some result ∧
      ((result.status = .continue ∧ ∃ kind, result.decidedKind = some kind ∧
          ∀ messages, some messages ∈ streams → readKind messages = some kind) ∨
        (result.status ≠ .continue ∧
          ∀ kind, ¬ ∀ messages, some messages ∈ streams → readKind messages = some kind)) := by
  obtain ⟨t, ht, hcounted⟩ :=
    readKinds_eq counted_init fun messages hm => (hall messages hm).readKind_isSome
  rw [List.nil_append] at hcounted
  unfold readKindFromBackend
  rw [ht]
  refine ⟨_, rfl, ?_⟩
  by_cases hagreed : Agreed (firstKinds streams)
  · left
    have hsame := hcounted.agreed_iff.mp hagreed
    have hnone : degenerateNode (firstKinds streams) t master = [] := if_neg (not_not.mpr hsame)
    refine ⟨by simp [hnone], ?_⟩
    obtain ⟨messages, hmem⟩ := hsome
    obtain ⟨kind, hkind⟩ := Option.isSome_iff_exists.mp (hall messages hmem).readKind_isSome
    have heq : ∀ messages, some messages ∈ streams → readKind messages = some kind := by
      intro other hother
      obtain ⟨k, hk⟩ := Option.isSome_iff_exists.mp (hall other hother).readKind_isSome
      rw [hk, hagreed k (mem_firstKinds.mpr ⟨other, hother, hk⟩) kind
        (mem_firstKinds.mpr ⟨messages, hmem, hkind⟩)]
    refine ⟨kind, ?_, heq⟩
    change trustKind (firstKinds streams) t master = some kind
    unfold trustKind
    rw [if_neg (not_not.mpr hsame)]
    cases hfirst : (firstKinds streams).findSome? id with
    | none =>
      have hno := List.findSome?_eq_none_iff.mp hfirst (some kind)
        (List.mem_map.mpr ⟨some messages, hmem, hkind⟩)
      cases hno
    | some k =>
      obtain ⟨stream, hstream, hk⟩ := List.exists_of_findSome?_eq_some hfirst
      have hmem' : k ∈ executed (firstKinds streams) := List.mem_filterMap.mpr ⟨stream, hstream, hk⟩
      obtain ⟨other, hother, hread⟩ := mem_firstKinds.mp hmem'
      rw [← hread]
      exact heq other hother
  · right
    have hpos : 0 ∉ executed (firstKinds streams) := by
      intro hzero
      obtain ⟨messages, hmem, hread⟩ := mem_firstKinds.mp hzero
      obtain ⟨hkind, -⟩ | ⟨hkind, -⟩ | ⟨hkind, -⟩ := (hall messages hmem).readKind_cases <;>
        simp [hkind] at hread
    have hne : degenerateNode (firstKinds streams) t master ≠ [] :=
      degenerateNode_ne_nil hcounted hagreed hpos
    refine ⟨?_, ?_⟩
    · simp only [if_neg hne]
      split <;> simp
    · intro kind heq
      refine hagreed fun k hk k' hk' => ?_
      obtain ⟨messages, hmem, hread⟩ := mem_firstKinds.mp hk
      obtain ⟨other, hother, hread'⟩ := mem_firstKinds.mp hk'
      rw [heq messages hmem] at hread
      rw [heq other hother] at hread'
      exact Option.some.inj (hread.symm.trans hread')

/-! ## The loop -/

theorem pending_discard_lt (hall : ∀ messages, some messages ∈ streams → ParseReply messages)
    (hsome : ∃ messages, some messages ∈ streams) :
    pending (streams.map (Option.map discardMessage)) < pending streams := by
  induction streams with
  | nil =>
    obtain ⟨_, hmem⟩ := hsome
    cases hmem
  | cons stream rest ih =>
    have hrest := fun messages hm => hall messages (List.mem_cons_of_mem _ hm)
    have hle : pending (rest.map (Option.map discardMessage)) ≤ pending rest := by
      by_cases hany : ∃ messages, some messages ∈ rest
      · exact Nat.le_of_lt (ih hrest hany)
      · have hnone : ∀ stream ∈ rest, Option.map discardMessage stream = stream := by
          intro stream hstream
          cases stream with
          | none => rfl
          | some messages => exact absurd ⟨messages, hstream⟩ hany
        have heq : rest.map (Option.map discardMessage) = rest :=
          (List.map_congr_left hnone).trans (List.map_id rest)
        exact Nat.le_of_eq (congrArg pending heq)
    cases stream with
    | none =>
      have hany : ∃ messages, some messages ∈ rest := by
        obtain ⟨messages, hmem⟩ := hsome
        exact ⟨messages, by simpa using hmem⟩
      simpa [pending] using ih hrest hany
    | some messages =>
      have := length_discardMessage_lt (hall messages List.mem_cons_self)
      simp only [pending, List.map_cons, List.sum_cons, Option.map_some, Option.getD_some] at hle ⊢
      omega

theorem some_mem_map_discard :
    some messages ∈ streams.map (Option.map discardMessage) ↔
      ∃ before, some before ∈ streams ∧ discardMessage before = messages := by
  simp

/-- A notice is left out of a reply that goes on. -/
theorem ParseReply.notice (h : ParseReply messages) (hkind : readKind messages = some 78) :
    ParseReply (discardMessage messages) ∧ (Completes (discardMessage messages) ↔ Completes messages) ∧
      notices messages = notices (discardMessage messages) + 1 := by
  obtain ⟨-, hcases⟩ | ⟨hother, -⟩ | ⟨hother, -⟩ := h.readKind_cases
  · exact hcases
  · cases hkind.symm.trans hother
  · cases hkind.symm.trans hother

theorem ParseReply.complete (h : ParseReply messages) (hkind : readKind messages = some 49) :
    discardMessage messages = [] ∧ Completes messages ∧ notices messages = 0 := by
  obtain ⟨hother, -⟩ | ⟨-, hcases⟩ | ⟨hother, -⟩ := h.readKind_cases
  · cases hkind.symm.trans hother
  · exact hcases
  · cases hkind.symm.trans hother

theorem ParseReply.error (h : ParseReply messages) (hkind : readKind messages = some 69) :
    discardMessage messages = [] ∧ ¬ Completes messages := by
  obtain ⟨hother, -⟩ | ⟨hother, -⟩ | ⟨-, hcases⟩ := h.readKind_cases
  · cases hkind.symm.trans hother
  · cases hkind.symm.trans hother
  · exact hcases

/-- A notice of each node does not matter. -/
theorem completeAlike_discard_iff (hnotice : ∀ messages, some messages ∈ streams →
      (Completes (discardMessage messages) ↔ Completes messages) ∧
        notices messages = notices (discardMessage messages) + 1) :
    CompleteAlike (streams.map (Option.map discardMessage)) ↔ CompleteAlike streams := by
  constructor
  · intro ⟨n, hn⟩
    refine ⟨n + 1, fun before hbefore => ?_⟩
    obtain ⟨hcompletes, hnotices⟩ := hnotice before hbefore
    obtain ⟨hdone, hcount⟩ := hn _ (some_mem_map_discard.mpr ⟨before, hbefore, rfl⟩)
    exact ⟨hcompletes.mp hdone, by omega⟩
  · intro ⟨n, hn⟩
    refine ⟨n - 1, fun after hafter => ?_⟩
    obtain ⟨before, hbefore, rfl⟩ := some_mem_map_discard.mp hafter
    obtain ⟨hcompletes, hnotices⟩ := hnotice before hbefore
    obtain ⟨hdone, hcount⟩ := hn before hbefore
    exact ⟨hcompletes.mpr hdone, by omega⟩

/-- Replies that end alike begin with messages of one kind. -/
theorem CompleteAlike.same_kind (hall : ∀ messages, some messages ∈ streams → ParseReply messages)
    (h : CompleteAlike streams) :
    ∃ kind, ∀ messages, some messages ∈ streams → readKind messages = some kind := by
  obtain ⟨n, hn⟩ := h
  refine ⟨if n = 0 then 49 else 78, fun messages hmem => ?_⟩
  obtain ⟨hdone, hcount⟩ := hn messages hmem
  obtain ⟨hfirst, -, -, hnotices⟩ | ⟨hfirst, -, -, hnotices⟩ | ⟨-, -, hnot⟩ :=
    (hall messages hmem).readKind_cases
  · rw [hfirst, if_neg (by omega)]
  · rw [hfirst, if_pos (by omega)]
  · exact absurd hdone hnot

theorem ends_readToParseComplete_iff (hrest : ∀ messages, some messages ∈ streams → Rest messages)
    (hsome : ∃ messages, some messages ∈ streams) (hfuel : pending streams < fuel) :
    Ends (readToParseComplete stopOnMismatch master fuel streams) ↔ CompleteAlike streams := by
  induction fuel generalizing streams with
  | zero => omega
  | succ fuel ih =>
    unfold readToParseComplete
    by_cases hempty : some [] ∈ streams
    · -- the loop waits for a node that has said everything
      have hwaits : readKindFromBackend stopOnMismatch master streams = none := by
        unfold readKindFromBackend
        rw [readKinds_eq_none hempty, Option.map_none]
      rw [hwaits]
      refine iff_of_false (by simp [Ends]) ?_
      intro ⟨n, hn⟩
      obtain ⟨⟨m, hm, -⟩, -⟩ := hn [] hempty
      cases hm
    · have hall : ∀ messages, some messages ∈ streams → ParseReply messages := by
        intro messages hmem
        obtain rfl | hreply := hrest messages hmem
        · exact absurd hmem hempty
        · exact hreply
      obtain ⟨messages, hmem⟩ := hsome
      obtain ⟨result, hresult, ⟨hstatus, kind, hdecided, hkind⟩ | ⟨hstatus, hdiffer⟩⟩ :=
        readKindFromBackend_replies stopOnMismatch master hall ⟨messages, hmem⟩
      · rw [hresult]
        simp only [if_pos hstatus, hdecided, Option.some.injEq]
        have hsome' : ∃ messages, some messages ∈ streams.map (Option.map discardMessage) :=
          ⟨_, some_mem_map_discard.mpr ⟨messages, hmem, rfl⟩⟩
        have hless := pending_discard_lt hall ⟨messages, hmem⟩
        obtain ⟨hfirst, -⟩ | ⟨hfirst, -⟩ | ⟨hfirst, -⟩ := (hall messages hmem).readKind_cases
        · -- a notice of each node
          obtain rfl : kind = 78 := Option.some.inj ((hkind messages hmem).symm.trans hfirst)
          have hnext := fun before hbefore => (hall before hbefore).notice (hkind before hbefore)
          have hrest' : ∀ after, some after ∈ streams.map (Option.map discardMessage) → Rest after := by
            intro after hafter
            obtain ⟨before, hbefore, rfl⟩ := some_mem_map_discard.mp hafter
            exact .inr (hnext before hbefore).1
          rw [if_neg (by decide), ih hrest' hsome' (by omega)]
          exact completeAlike_discard_iff fun before hbefore => (hnext before hbefore).2
        · -- ParseComplete of each node
          obtain rfl : kind = 49 := Option.some.inj ((hkind messages hmem).symm.trans hfirst)
          have hlast := fun before hbefore => (hall before hbefore).complete (hkind before hbefore)
          rw [if_pos rfl]
          refine iff_of_true ⟨_, _, rfl, fun after hafter => ?_⟩
            ⟨0, fun before hbefore => (hlast before hbefore).2⟩
          obtain ⟨before, hbefore, rfl⟩ := some_mem_map_discard.mp hafter
          exact (hlast before hbefore).1
        · -- an ErrorResponse of each node, after which nothing comes
          obtain rfl : kind = 69 := Option.some.inj ((hkind messages hmem).symm.trans hfirst)
          have hlast := fun before hbefore => (hall before hbefore).error (hkind before hbefore)
          have hrest' : ∀ after, some after ∈ streams.map (Option.map discardMessage) → Rest after := by
            intro after hafter
            obtain ⟨before, hbefore, rfl⟩ := some_mem_map_discard.mp hafter
            exact .inl (hlast before hbefore).1
          rw [if_neg (by decide), ih hrest' hsome' (by omega)]
          refine iff_of_false ?_ ?_
          · intro ⟨n, hn⟩
            obtain ⟨hdone, -⟩ := hn _ (some_mem_map_discard.mpr ⟨messages, hmem, rfl⟩)
            rw [(hlast messages hmem).1] at hdone
            obtain ⟨m, hm, -⟩ := hdone
            cases hm
          · intro ⟨n, hn⟩
            exact (hlast messages hmem).2 (hn messages hmem).1
      · -- the kinds differ
        rw [hresult]
        simp only [if_neg hstatus]
        refine iff_of_false ?_ ?_
        · intro ⟨status, after, heq, hafter⟩
          obtain ⟨-, rfl⟩ := Prod.mk.inj (Option.some.inj heq)
          exact (hall messages hmem).skipParameterStatus_ne_nil
            (hafter _ (List.mem_map.mpr ⟨some messages, hmem, rfl⟩))
        · intro halike
          obtain ⟨kind, hkind⟩ := halike.same_kind hall
          exact hdiffer kind hkind

/-- `parse_before_bind` returns after the replies exactly if they all end with ParseComplete, after the
same number of notices, of which one that comes first does not count if it is too long to be put back. -/
theorem parseBeforeBind_ends_iff (stopOnMismatch : Bool) (master : Nat) (nodes : List ParseNode) :
    Ends (parseBeforeBind stopOnMismatch master nodes) ↔ CompleteAlike (nodes.map ParseNode.stream) := by
  have hmem : ∀ messages, some messages ∈ nodes.map ParseNode.stream →
      ∃ node ∈ nodes, node.asked = true ∧ messages = perNodeErrorLog node.reply := by
    intro messages hm
    obtain ⟨node, hnode, hstream⟩ := List.mem_map.mp hm
    unfold ParseNode.stream at hstream
    split at hstream
    · rename_i hasked
      exact ⟨node, hnode, hasked, (Option.some.inj hstream).symm⟩
    · cases hstream
  unfold parseBeforeBind
  by_cases hany : nodes.any ParseNode.asked = true
  · simp only [if_pos hany]
    refine ends_readToParseComplete_iff ?_ ?_ (Nat.lt_succ_self _)
    · intro messages hm
      obtain ⟨node, -, -, rfl⟩ := hmem messages hm
      exact rest_perNodeErrorLog node.legal
    · obtain ⟨node, hnode, hasked⟩ := List.any_eq_true.mp hany
      exact ⟨_, List.mem_map.mpr ⟨node, hnode, if_pos hasked⟩⟩
  · simp only [if_neg hany]
    have hnone : ∀ messages, some messages ∉ nodes.map ParseNode.stream := by
      intro messages hm
      obtain ⟨node, hnode, hasked, -⟩ := hmem messages hm
      exact hany (List.any_eq_true.mpr ⟨node, hnode, hasked⟩)
    exact iff_of_true ⟨_, _, rfl, fun messages hm => absurd hm (hnone messages)⟩
      ⟨0, fun messages hm => absurd hm (hnone messages)⟩

/-- A node that answers the Parse by an error. -/
def failingNode : ParseNode where
  whereToSend := true
  parsed := false
  commitSkips := false
  reply := [emptyMessage 69]
  legal := .last (.inr rfl)

theorem not_parseBeforeBind_ends_failingNode :
    ¬ ∀ (stopOnMismatch : Bool) (master : Nat) (nodes : List ParseNode),
      Ends (parseBeforeBind stopOnMismatch master nodes) := by
  intro h
  obtain ⟨status, streams, heq, -⟩ := h false 0 [failingNode]
  have hwaits : parseBeforeBind false 0 [failingNode] = none := by decide
  rw [hwaits] at heq
  cases heq

end PgPool.Internal
