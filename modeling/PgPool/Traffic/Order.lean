import PgPool.Traffic.Maps

/-!
# Bind follows Parse, Execute follows Bind

What has to have happened on the connections before a message goes to a node, and the books that
make sure of it: which nodes a message has been routed to, and which of them have completed it.
-/

namespace PgPool

/-- The action routes a message to a node. -/
def Action.isRoutedTo (m : SentMessage) (i : NodeId) : Action → Bool
  | .routed m' map => m' == m && map i
  | _ => false

/-- A node reports that it has executed a message. -/
def Action.isCompletedOn (m : SentMessage) (i : NodeId) : Action → Bool
  | .completed m' nodes => m' == m && nodes.contains i
  | _ => false

/-- The message of a kind and name that is reported. -/
def Action.completion (key : MsgKind × String) : Action → Option SentMessage
  | .completed m _ => if m.key = key then some m else none
  | _ => none

/-- Some action routes the message to the node. -/
def RoutedTo (trace : List Action) (m : SentMessage) (i : NodeId) : Prop :=
  ∃ a ∈ trace, a.isRoutedTo m i = true

/-- The node has completed the message. -/
def CompletedOn (trace : List Action) (m : SentMessage) (i : NodeId) : Prop :=
  ∃ a ∈ trace, a.isCompletedOn m i = true

instance (trace : List Action) (m : SentMessage) (i : NodeId) : Decidable (RoutedTo trace m i) :=
  inferInstanceAs (Decidable (∃ a ∈ trace, a.isRoutedTo m i = true))

instance (trace : List Action) (m : SentMessage) (i : NodeId) : Decidable (CompletedOn trace m i) :=
  inferInstanceAs (Decidable (∃ a ∈ trace, a.isCompletedOn m i = true))

/-- The message of a kind and name that was the last to be completed. -/
def lastCompleted (key : MsgKind × String) (trace : List Action) : Option SentMessage :=
  trace.findSome? (Action.completion key)

/-- A node holds what a kind and name stand for: it has completed the message that was the last of
them to be completed, and that belongs to the query context. -/
def Holding (trace : List Action) (key : MsgKind × String) (qc : QcId) (i : NodeId) : Prop :=
  match lastCompleted key trace with
  | none => False
  | some m => m.queryContext = qc ∧ CompletedOn trace m i

instance (trace : List Action) (key : MsgKind × String) (qc : QcId) (i : NodeId) :
    Decidable (Holding trace key qc i) :=
  match h : lastCompleted key trace with
  | none => .isFalse (by simp [Holding, h])
  | some m => decidable_of_iff (m.queryContext = qc ∧ CompletedOn trace m i) (by simp [Holding, h])

/-- What a message needs on the node it goes to: Bind the statement it names, prepared by PREPARE or
Parse; Execute, and Describe of a portal, the portal. -/
def BackendMsg.Needs (trace : List Action) (qc : QcId) (i : NodeId) : BackendMsg → Prop
  | .bind _ stmtName _ => Holding trace (.Q, stmtName) qc i ∨ Holding trace (.P, stmtName) qc i
  | .execute portal | .describe .portal portal => Holding trace (.B, portal) qc i
  | _ => True

instance (trace : List Action) (qc : QcId) (i : NodeId) (msg : BackendMsg) :
    Decidable (msg.Needs trace qc i) :=
  match msg with
  | .bind _ _ _ => inferInstanceAs (Decidable (_ ∨ _))
  | .execute _ | .describe .portal _ => inferInstanceAs (Decidable (Holding _ _ _ _))
  | .describe .statement _ | .query _ | .parse _ _ | .errorPortal | .close _ _ => isTrue trivial

/-- What an action needs. -/
def Action.Needs (trace : List Action) : Action → Prop
  | .sent i msg qc => msg.Needs trace qc i
  | _ => True

instance (trace : List Action) (a : Action) : Decidable (a.Needs trace) :=
  match a with
  | .sent _ _ _ => inferInstanceAs (Decidable (BackendMsg.Needs _ _ _ _))
  | .synced _ | .forwarded _ _ | .errorCommand _ | .command _ _ _ | .routed _ _ | .completed _ _
  | .tagged _ _ | .ready _ | .reported _ _ => isTrue trivial

/-- Whatever went to a node, the node held what it needs. -/
def InOrder : List Action → Prop
  | [] => True
  | a :: earlier => a.Needs earlier ∧ InOrder earlier

instance decidableInOrder : ∀ trace, Decidable (InOrder trace)
  | [] => isTrue trivial
  | _ :: earlier =>
    have : Decidable (InOrder earlier) := decidableInOrder earlier
    inferInstanceAs (Decidable (_ ∧ _))

/-- Neither a message that is routed nor one that is completed. -/
def Action.Silent : Action → Prop
  | .routed _ _ | .completed _ _ => False
  | _ => True

/-- Nothing is needed for the action. -/
def Action.Free (a : Action) : Prop := ∀ trace, a.Needs trace

/-- A message for which nothing is needed. -/
def BackendMsg.Free (msg : BackendMsg) : Prop := ∀ trace qc i, msg.Needs trace qc i

theorem Contents.free_toParse (contents : Contents) : contents.toParse.Free := by
  intro trace qc i
  cases contents <;> trivial

section

variable {new trace : List Action} {m m' : SentMessage} {i : NodeId} {key : MsgKind × String}
  {qc : QcId} {a : Action}

theorem Action.Silent.isRoutedTo (h : a.Silent) : a.isRoutedTo m i = false := by
  cases a <;> first | rfl | cases h

theorem Action.Silent.completion (h : a.Silent) : a.completion key = none := by
  cases a <;> first | rfl | cases h

theorem routedTo_append (h : ∀ a ∈ new, a.Silent) :
    RoutedTo (new ++ trace) m i ↔ RoutedTo trace m i := by
  constructor
  · intro hr
    obtain ⟨a, ha, hm⟩ := hr
    obtain ha | ha := List.mem_append.1 ha
    · rw [(h a ha).isRoutedTo] at hm
      cases hm
    · exact ⟨a, ha, hm⟩
  · intro hr
    obtain ⟨a, ha, hm⟩ := hr
    exact ⟨a, List.mem_append_right new ha, hm⟩

theorem CompletedOn.append (h : CompletedOn trace m i) (new : List Action) :
    CompletedOn (new ++ trace) m i := by
  obtain ⟨a, ha, hm⟩ := h
  exact ⟨a, List.mem_append_right new ha, hm⟩

theorem completedOn_of_mem {nodes : List NodeId} (h : Action.completed m nodes ∈ trace)
    (hi : i ∈ nodes) : CompletedOn trace m i :=
  ⟨_, h, by simp [Action.isCompletedOn, hi]⟩

theorem lastCompleted_append (h : ∀ a ∈ new, a.completion key = none) :
    lastCompleted key (new ++ trace) = lastCompleted key trace := by
  have hnew : new.findSome? (Action.completion key) = none := List.findSome?_eq_none_iff.2 h
  rw [lastCompleted, List.findSome?_append, hnew]
  rfl

theorem holding_of_last (hlast : lastCompleted m.key trace = some m) (hm : CompletedOn trace m i) :
    Holding trace m.key m.queryContext i := by
  unfold Holding
  rw [hlast]
  exact ⟨rfl, hm⟩

theorem Holding.append (h : Holding trace key qc i) (hnew : ∀ a ∈ new, a.Silent) :
    Holding (new ++ trace) key qc i := by
  unfold Holding at h ⊢
  rw [lastCompleted_append fun a ha => (hnew a ha).completion]
  cases hl : lastCompleted key trace with
  | none =>
    rw [hl] at h
    exact h
  | some m =>
    rw [hl] at h
    exact ⟨h.1, h.2.append new⟩

theorem BackendMsg.Needs.append {msg : BackendMsg} (h : msg.Needs trace qc i)
    (hnew : ∀ a ∈ new, a.Silent) : msg.Needs (new ++ trace) qc i := by
  cases msg with
  | bind portal stmtName params => exact h.imp (fun hq => hq.append hnew) fun hp => hp.append hnew
  | execute portal => exact Holding.append h hnew
  | describe target name =>
    cases target with
    | portal => exact Holding.append h hnew
    | statement => trivial
  | _ => trivial

theorem Action.Needs.append (h : a.Needs trace) (hnew : ∀ a ∈ new, a.Silent) :
    a.Needs (new ++ trace) := by
  cases a with
  | sent i msg qc => exact BackendMsg.Needs.append h hnew
  | _ => trivial

/-- Actions that do not touch the books, and for which everything is there. -/
theorem InOrder.append (h : InOrder trace) (hsilent : ∀ a ∈ new, a.Silent)
    (hneeds : ∀ a ∈ new, a.Needs trace) : InOrder (new ++ trace) := by
  induction new with
  | nil => exact h
  | cons a rest ih =>
    have hrest : ∀ b ∈ rest, b.Silent := fun b hb => hsilent b (List.mem_cons_of_mem a hb)
    exact ⟨(hneeds a List.mem_cons_self).append hrest,
      ih hrest fun b hb => hneeds b (List.mem_cons_of_mem a hb)⟩

/-- Actions for which nothing is needed. -/
theorem InOrder.append_free (h : InOrder trace) (hfree : ∀ a ∈ new, a.Free) :
    InOrder (new ++ trace) := by
  induction new with
  | nil => exact h
  | cons a rest ih =>
    exact ⟨hfree a List.mem_cons_self _, ih fun b hb => hfree b (List.mem_cons_of_mem a hb)⟩

end

/-! ## The books -/

/-- Every node that is up and that the message has been routed to has completed it. -/
def Done (env : Setup) (trace : List Action) (m : SentMessage) : Prop :=
  ∀ i, i < env.numBackends → env.isMyUp i = true → RoutedTo trace m i → CompletedOn trace m i

/-- The books of a session that serves a client: the entries of the list have been completed, each as
the last one of its kind and name, and the pending message will be, on the nodes of its map. -/
structure Settled (env : Setup) (trace : List Action) (list : List SentMessage)
    (pending : Option SentMessage) (map : QcId → NodeMap) : Prop where
  done : ∀ m ∈ list, Done env trace m
  last : ∀ m ∈ list, lastCompleted m.key trace = some m
  pending : ∀ m, pending = some m →
    Done env trace m ∨ ∀ i, RoutedTo trace m i → map m.queryContext i = true

section

variable {env : Setup} {new trace : List Action} {list list' : List SentMessage}
  {pending pending' : Option SentMessage} {map map' : QcId → NodeMap} {m : SentMessage}

theorem Done.append_silent (h : Done env trace m) (hnew : ∀ a ∈ new, a.Silent) :
    Done env (new ++ trace) m := by
  intro i hi hup hr
  exact (h i hi hup ((routedTo_append hnew).1 hr)).append new

theorem Done.completed (h : Done env trace m) (m' : SentMessage) (nodes : List NodeId) :
    Done env (.completed m' nodes :: trace) m := by
  intro i hi hup hr
  obtain ⟨a, ha, hm⟩ := hr
  obtain rfl | ha := List.mem_cons.1 ha
  · cases hm
  · exact (h i hi hup ⟨a, ha, hm⟩).append [_]

/-- The books after actions that do not touch them. -/
theorem Settled.silent (h : Settled env trace list pending map) (hnew : ∀ a ∈ new, a.Silent)
    (hlist : ∀ m ∈ list', m ∈ list)
    (hpending : ∀ m, pending' = some m → m ∈ list ∨ pending = some m ∧
      ∀ i, map m.queryContext i = true → map' m.queryContext i = true) :
    Settled env (new ++ trace) list' pending' map' where
  done m hm := (h.done m (hlist m hm)).append_silent hnew
  last m hm := by
    rw [lastCompleted_append fun a ha => (hnew a ha).completion]
    exact h.last m (hlist m hm)
  pending m hm := by
    obtain hmem | ⟨hp, hmap⟩ := hpending m hm
    · exact Or.inl ((h.done m hmem).append_silent hnew)
    · refine (h.pending m hp).imp (fun hd => hd.append_silent hnew) fun hc i hr => ?_
      exact hmap i (hc i ((routedTo_append hnew).1 hr))

/-- A new message is routed. -/
theorem Settled.routed {nodes : NodeMap} (h : Settled env trace list pending map)
    (hlist : m ∉ list) (hnew : ∀ i, ¬ RoutedTo trace m i)
    (hmap : ∀ i, nodes i = true → map' m.queryContext i = true) :
    Settled env (.routed m nodes :: trace) list (some m) map' where
  done m' hm' := by
    intro i hi hup hr
    obtain ⟨a, ha, hrouted⟩ := hr
    obtain rfl | ha := List.mem_cons.1 ha
    · simp only [Action.isRoutedTo, Bool.and_eq_true, beq_iff_eq] at hrouted
      exact absurd (hrouted.1 ▸ hm') hlist
    · exact (h.done m' hm' i hi hup ⟨a, ha, hrouted⟩).append [_]
  last m' hm' := h.last m' hm'
  pending m' hm' := by
    cases hm'
    refine Or.inr fun i hr => ?_
    obtain ⟨a, ha, hrouted⟩ := hr
    obtain rfl | ha := List.mem_cons.1 ha
    · simp only [Action.isRoutedTo, Bool.and_eq_true] at hrouted
      exact hmap i hrouted.2
    · exact absurd ⟨a, ha, hrouted⟩ (hnew i)

/-- An entry is completed on further nodes. -/
theorem Settled.completed (h : Settled env trace list pending map)
    (hd : Keyed.Distinct SentMessage.key list) (hm : m ∈ list) (nodes : List NodeId) :
    Settled env (.completed m nodes :: trace) list pending map where
  done m' hm' := (h.done m' hm').completed m nodes
  last m' hm' := by
    by_cases hk : m.key = m'.key
    · rw [hd.eq_of_key hm hm' hk]
      simp [lastCompleted, Action.completion]
    · rw [← h.last m' hm']
      exact @lastCompleted_append [.completed m nodes] _ _ (by simp [Action.completion, hk])
  pending m' hm' := by
    refine (h.pending m' hm').imp (fun hdone => hdone.completed m nodes) fun hc i hr => ?_
    obtain ⟨a, ha, hrouted⟩ := hr
    obtain rfl | ha := List.mem_cons.1 ha
    · cases hrouted
    · exact hc i ⟨a, ha, hrouted⟩

/-- The pending message is completed and is the only one of its key in the list. -/
theorem Settled.completes {nodes : List NodeId} (h : Settled env trace list (some m) map)
    (hnodes : ∀ i, i < env.numBackends → env.isMyUp i = true → map m.queryContext i = true → i ∈ nodes)
    (hlist : ∀ m' ∈ list', m' = m ∨ m' ∈ list ∧ m'.key ≠ m.key) :
    Settled env (.completed m nodes :: trace) list' none map' where
  done m' hm' := by
    obtain rfl | ⟨hm', -⟩ := hlist m' hm'
    · obtain hdone | hcover := h.pending m' rfl
      · exact hdone.completed m' nodes
      · intro i hi hup hr
        obtain ⟨a, ha, hrouted⟩ := hr
        obtain rfl | ha := List.mem_cons.1 ha
        · cases hrouted
        · exact completedOn_of_mem List.mem_cons_self
            (hnodes i hi hup (hcover i ⟨a, ha, hrouted⟩))
    · exact (h.done m' hm').completed m nodes
  last m' hm' := by
    obtain rfl | ⟨hm', hk⟩ := hlist m' hm'
    · simp [lastCompleted, Action.completion]
    · rw [← h.last m' hm']
      exact @lastCompleted_append [.completed m nodes] _ _
        (by simp [Action.completion, Ne.symm hk])
  pending m' hm' := by cases hm'

end

end PgPool
