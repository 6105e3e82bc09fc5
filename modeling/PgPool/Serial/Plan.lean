import PgPool.Serial.System

/-!
# What a child is about to do

A list of operations is *good* if every message is settled before the next one goes to the same node, and
a write before anything that commits.  The operations for a request are good.
-/

namespace PgPool.Serial

/-- Operations with which a message goes to a node. -/
def Op.sendsTo (i : NodeId) : Op → Bool
  | .send j _ | .startInternal j | .endInternal j => j = i
  | _ => false

/-- Operations that commit. -/
def Op.ends : Op → Bool
  | .send _ m => m.commits
  | .endInternal _ => true
  | _ => false

/-- The write that an operation sends to a node. -/
def Op.write? : Op → Option WriteId
  | .send _ m => m.write?
  | _ => none

theorem Msg.write?_eq_none_of_commits {m : Msg} (h : m.commits) : m.write? = none := by
  unfold Msg.commits at h
  split at h <;> simp_all [Msg.write?]

/-- The node is settled before any operation of a kind. -/
def Until (p : Op → Bool) (i : NodeId) : List Op → Prop
  | [] => False
  | op :: ops => op = .settle i ∨ p op = false ∧ Until p i ops

/-- The node is settled before the next message to it. -/
def First (i : NodeId) : List Op → Prop := Until (Op.sendsTo i) i

/-- The node is settled before the next message to it, and before anything is committed. -/
def Waits (i : NodeId) : List Op → Prop := Until (fun op => op.sendsTo i || op.ends) i

/-- No write. -/
def NoWrites (ops : List Op) : Prop := ∀ op ∈ ops, op.write? = none

/-- No write to a node. -/
def NoWritesTo (i : NodeId) (ops : List Op) : Prop := ∀ op ∈ ops, op.sendsTo i → op.write? = none

def Good : List Op → Prop
  | [] => True
  | op :: ops =>
      (∀ i m, op = .send i m → First i ops) ∧
      (∀ i m, op = .send i m → m.write? ≠ none → Waits i ops ∧ NoWritesTo i ops) ∧
      (op.ends → NoWrites ops) ∧
      Good ops

section

variable {p : Op → Bool} {i : NodeId} {m : Msg} {op : Op} {xs ys : List Op}

@[simp]
theorem not_first_nil : ¬ First i [] := id

@[simp]
theorem not_waits_nil : ¬ Waits i [] := id

theorem first_cons : First i (op :: xs) ↔ op = .settle i ∨ op.sendsTo i = false ∧ First i xs :=
  Iff.rfl

theorem waits_cons :
    Waits i (op :: xs) ↔ op = .settle i ∨ (op.sendsTo i = false ∧ op.ends = false) ∧ Waits i xs := by
  simp [Waits, Until]

theorem until_append_left (h : Until p i xs) : Until p i (xs ++ ys) := by
  induction xs with
  | nil => exact h.elim
  | cons op xs ih =>
    cases h with
    | inl settle => exact .inl settle
    | inr next => exact .inr ⟨next.1, ih next.2⟩

theorem until_append_right (hxs : ∀ op ∈ xs, p op = false) (h : Until p i ys) :
    Until p i (xs ++ ys) := by
  induction xs with
  | nil => exact h
  | cons op xs ih =>
    exact .inr ⟨hxs op List.mem_cons_self, ih fun op hop => hxs op (List.mem_cons_of_mem _ hop)⟩

theorem until_settle {ns : List NodeId} (hp : ∀ j, p (.settle j) = false) (hi : i ∈ ns) :
    Until p i (ns.map Op.settle) := by
  induction ns with
  | nil => simp at hi
  | cons j ns ih =>
    by_cases hj : j = i
    · exact .inl (by rw [hj])
    · exact .inr ⟨hp j, ih (by grind)⟩

theorem noWrites_append : NoWrites (xs ++ ys) ↔ NoWrites xs ∧ NoWrites ys := by
  simp only [NoWrites, List.mem_append]
  grind

theorem noWritesTo_append (hxs : NoWritesTo i xs) (hys : NoWritesTo i ys) :
    NoWritesTo i (xs ++ ys) := by
  intro op hop
  rcases List.mem_append.mp hop with hop | hop
  · exact hxs op hop
  · exact hys op hop

theorem NoWrites.to (h : NoWrites xs) : NoWritesTo i xs := fun op hop _ => h op hop

/-- Blocks that settle what they send can be put together, as long as nothing commits ahead of a
write. -/
theorem good_append (hxs : Good xs) (hys : Good ys)
    (ends : (∃ op ∈ xs, op.ends) → NoWrites ys)
    (writes : ∀ i m, .send i m ∈ xs → m.write? ≠ none → NoWritesTo i ys) : Good (xs ++ ys) := by
  induction xs with
  | nil => exact hys
  | cons op xs ih =>
    obtain ⟨first, waits, ender, rest⟩ := hxs
    refine ⟨fun i m h => until_append_left (first i m h), fun i m h hm => ?_, fun h => ?_,
      ih rest (fun ⟨op, hop, h⟩ => ends ⟨op, List.mem_cons_of_mem _ hop, h⟩)
        fun i m h => writes i m (List.mem_cons_of_mem _ h)⟩
    · obtain ⟨hwaits, hno⟩ := waits i m h hm
      exact ⟨until_append_left hwaits, noWritesTo_append hno (writes i m (by simp [h]) hm)⟩
    · exact noWrites_append.mpr ⟨ender h, ends ⟨op, List.mem_cons_self, h⟩⟩

/-- Without any write. -/
theorem good_append_of_noWrites (hxs : Good xs) (hys : Good ys) (hno : NoWrites (xs ++ ys)) :
    Good (xs ++ ys) :=
  have hno := noWrites_append.mp hno
  good_append hxs hys (fun _ => hno.2) fun _ _ _ _ => hno.2.to

/-- Operations with which no message goes out at once. -/
theorem good_of_forall (h : ∀ op ∈ xs, (∀ i m, op ≠ .send i m)) : Good xs := by
  induction xs with
  | nil => trivial
  | cons op xs ih =>
    have hop := h op List.mem_cons_self
    refine ⟨fun i m h => (hop i m h).elim, fun i m h => (hop i m h).elim, fun _ op hmem => ?_,
      ih fun op hop => h op (List.mem_cons_of_mem _ hop)⟩
    cases op with
    | send i m => exact (h _ (List.mem_cons_of_mem _ hmem) i m rfl).elim
    | _ => rfl

/-- The nodes that a message is sent to. -/
def targets (ops : List Op) : List NodeId :=
  ops.filterMap fun
    | .send i _ => some i
    | _ => none

/-- Sending or polling. -/
def Op.Sends (m : Msg) (op : Op) : Prop := (∃ i, op = .send i m) ∨ ∃ i, op = .poll i

theorem noWrites_of_sends (h : ∀ op ∈ xs, op.Sends m) (hm : m.write? = none) : NoWrites xs := by
  intro op hop
  rcases h op hop with ⟨i, rfl⟩ | ⟨i, rfl⟩
  · exact hm
  · rfl

/-- One message to several nodes, each of which is settled in the end. -/
theorem good_sends {ns : List NodeId} (h : ∀ op ∈ xs, op.Sends m) (hnodup : (targets xs).Nodup)
    (hns : ∀ i ∈ targets xs, i ∈ ns) : Good (xs ++ ns.map Op.settle) := by
  have settles : NoWrites (ns.map Op.settle) := by simp [NoWrites, Op.write?]
  induction xs with
  | nil => exact good_of_forall (by simp)
  | cons op xs ih =>
    have rest := fun op hop => h op (List.mem_cons_of_mem _ hop)
    rcases h op List.mem_cons_self with ⟨i, rfl⟩ | ⟨i, rfl⟩
    · simp only [targets, List.filterMap_cons, List.nodup_cons] at hnodup hns
      have other : ∀ op ∈ xs, op.sendsTo i = false := by
        intro op hop
        rcases rest op hop with ⟨j, rfl⟩ | ⟨j, rfl⟩
        · have : j ∈ targets xs := by
            simp only [targets, List.mem_filterMap]
            exact ⟨_, hop, rfl⟩
          simp only [Op.sendsTo, decide_eq_false_iff_not]
          rintro rfl
          exact hnodup.1 this
        · rfl
      have hi : i ∈ ns := hns i (by simp)
      refine ⟨?_, ?_, ?_, ih rest hnodup.2 fun j hj => hns j (by simp [targets] at hj ⊢; grind)⟩
      · rintro _ _ ⟨⟩
        exact until_append_right other (until_settle (fun _ => rfl) hi)
      · rintro _ _ ⟨⟩ hm
        have hends : m.commits = false := by
          by_contra hc
          exact hm (Msg.write?_eq_none_of_commits (by simpa using hc))
        refine ⟨until_append_right (fun op hop => ?_) (until_settle (fun _ => rfl) hi),
          fun op hop => ?_⟩
        · rcases rest op hop with ⟨j, rfl⟩ | ⟨j, rfl⟩
          · simpa [Op.ends, hends] using other _ hop
          · rfl
        · rcases List.mem_append.mp hop with hop | hop
          · simp [other op hop]
          · exact fun _ => settles op hop
      · intro hc
        exact noWrites_append.mpr
          ⟨noWrites_of_sends rest (Msg.write?_eq_none_of_commits hc), settles⟩
    · exact ⟨by simp, by simp, by simp [Op.ends],
        ih rest (by simpa [targets] using hnodup) (by simpa [targets] using hns)⟩

end

/-! ## The operations for a request -/

section

variable (env : Cluster) {i : NodeId} {m : Msg}

theorem targets_append (xs ys : List Op) : targets (xs ++ ys) = targets xs ++ targets ys :=
  List.filterMap_append

@[simp]
theorem targets_sendAndWait (ns : List NodeId) (m : Msg) : targets (sendAndWait ns m) = ns := by
  simp only [targets, sendAndWait, List.filterMap_append, List.filterMap_map, Function.comp_def]
  simp

theorem sends_sendAndWait (ns : List NodeId) (m : Msg) : ∀ op ∈ sendAndWait ns m, op.Sends m := by
  simp only [sendAndWait, List.mem_append, List.mem_map]
  rintro op (⟨i, -, rfl⟩ | ⟨i, -, rfl⟩)
  · exact .inl ⟨i, rfl⟩
  · exact .inr ⟨i, rfl⟩

theorem sends_append {xs ys : List Op} (hxs : ∀ op ∈ xs, op.Sends m) (hys : ∀ op ∈ ys, op.Sends m) :
    ∀ op ∈ xs ++ ys, op.Sends m := by
  intro op hop
  rcases List.mem_append.mp hop with hop | hop
  · exact hxs op hop
  · exact hys op hop

/-- A list of operations that sends a message to every node. -/
structure ToAll (m : Msg) (ops : List Op) : Prop where
  sends : ∀ op ∈ ops, op.Sends m
  perm : (targets ops).Perm env.nodes

theorem ToAll.good {ops : List Op} (h : ToAll env m ops) : Good (ops ++ env.nodes.map Op.settle) :=
  good_sends h.sends (h.perm.nodup_iff.mpr env.nodup) fun _ hi => h.perm.subset hi

theorem ToAll.mem {ops : List Op} (h : ToAll env m ops) (hi : i ∈ env.nodes) : .send i m ∈ ops := by
  have := h.perm.mem_iff.mpr hi
  simp only [targets, List.mem_filterMap] at this
  obtain ⟨op, hop, heq⟩ := this
  rcases h.sends op hop with ⟨j, rfl⟩ | ⟨j, rfl⟩
  · simp at heq
    exact heq ▸ hop
  · simp at heq

theorem toAll_sendStatement (statement : Statement) (m : Msg) :
    ToAll env m (sendStatement env statement m) := by
  have master := sends_sendAndWait [env.master] m
  have others := sends_sendAndWait env.others m
  unfold sendStatement
  split
  · exact ⟨sends_append others master, by simp [targets_append, Cluster.nodes]⟩
  · exact ⟨sends_append others master, by simp [targets_append, Cluster.nodes]⟩
  · exact ⟨sends_append master others, by simp [targets_append, Cluster.nodes]⟩

theorem toAll_sendQuery (statement : Statement) :
    ToAll env (.query statement) (sendQuery env statement) := by
  unfold sendQuery
  split
  · exact toAll_sendStatement env _ _
  · exact toAll_sendStatement env _ _
  · split
    · exact ⟨sends_sendAndWait _ _, by simp⟩
    · exact toAll_sendStatement env _ _

theorem toAll_sync : ToAll env .sync (env.nodes.map (Op.send · .sync)) where
  sends := by
    intro op hop
    obtain ⟨i, -, rfl⟩ := List.mem_map.mp hop
    exact .inl ⟨i, rfl⟩
  perm := by simp [targets, List.filterMap_map]

/-- What `ReadyForQuery` does when the nodes are settled. -/
def afterReady (allow : Bool) : List Op :=
  (if allow then (env.others ++ [env.master]).map Op.endInternal else []) ++ env.nodes.map Op.status

theorem good_afterReady (allow : Bool) : Good (afterReady env allow) :=
  good_of_forall (by
    intro op hop
    simp only [afterReady, List.mem_append, List.mem_map, List.mem_ite_nil_right] at hop
    grind)

theorem noWrites_afterReady (allow : Bool) : NoWrites (afterReady env allow) := by
  intro op hop
  simp only [afterReady, List.mem_append, List.mem_map, List.mem_ite_nil_right] at hop
  rcases hop with ⟨-, i, -, rfl⟩ | ⟨i, -, rfl⟩ <;> rfl

theorem good_ready {ops : List Op} (h : Good (ops ++ env.nodes.map Op.settle)) (allow : Bool) :
    Good (ops ++ readyForQuery env allow) := by
  have : ops ++ readyForQuery env allow = (ops ++ env.nodes.map Op.settle) ++ afterReady env allow := by
    simp [readyForQuery, afterReady]
  rw [this]
  exact good_append h (good_afterReady env allow) (fun _ => noWrites_afterReady env allow)
    fun _ _ _ _ => (noWrites_afterReady env allow).to

theorem noWrites_readyForQuery (allow : Bool) : NoWrites (readyForQuery env allow) :=
  noWrites_append.mpr ⟨by simp [NoWrites, Op.write?], noWrites_afterReady env allow⟩

/-- What neither commits nor writes. -/
def Quiet (ops : List Op) : Prop := ∀ op ∈ ops, op.ends = false ∧ op.write? = none

theorem good_quiet_append {xs ys : List Op} (quiet : Quiet xs) (hxs : Good xs) (hys : Good ys) :
    Good (xs ++ ys) := by
  refine good_append hxs hys (fun ⟨op, hop, hends⟩ => ?_) fun i m h hm => ?_
  · simp [(quiet op hop).1] at hends
  · exact (hm (quiet _ h).2).elim

theorem Quiet.noWrites {ops : List Op} (h : Quiet ops) : NoWrites ops := fun op hop => (h op hop).2

theorem good_startInternal (internal : Bool) : Good (startInternal env internal) :=
  good_of_forall (by
    intro op hop
    simp only [startInternal, List.mem_ite_nil_right, List.mem_map] at hop
    grind)

theorem quiet_startInternal (internal : Bool) : Quiet (startInternal env internal) := by
  intro op hop
  simp only [startInternal, List.mem_ite_nil_right, List.mem_map] at hop
  obtain ⟨-, i, -, rfl⟩ := hop
  exact ⟨rfl, rfl⟩

theorem quiet_insertLock (lock : Bool) : Quiet (insertLock env lock) := by
  intro op hop
  simp only [insertLock, List.mem_ite_nil_right, List.mem_flatMap, List.mem_cons,
    List.not_mem_nil, or_false] at hop
  obtain ⟨-, i, -, rfl | rfl | rfl⟩ := hop <;> exact ⟨rfl, rfl⟩

theorem good_insertLock (lock : Bool) : Good (insertLock env lock) := by
  unfold insertLock
  split
  · induction env.nodes with
    | nil => trivial
    | cons i ns ih =>
      refine good_quiet_append ?_ ?_ ih
      · simp [Quiet, Op.ends, Op.write?, Msg.commits, Msg.write?]
      · simp [Good, Op.ends, Msg.commits, Msg.write?, first_cons]
  · trivial

theorem good_sendPrepare : Good (sendPrepare env) :=
  (toAll_sendStatement env .other .prepare).good env

theorem noWrites_sendPrepare : NoWrites (sendPrepare env) :=
  noWrites_append.mpr
    ⟨noWrites_of_sends (toAll_sendStatement env .other .prepare).sends rfl, by
      simp [NoWrites, Op.write?]⟩

theorem good_parseSync (c : ChildState) : Good (parseSync env c) := by
  unfold parseSync
  split
  · trivial
  · exact good_ready env ((toAll_sync env).good env) false

theorem noWrites_parseSync (c : ChildState) : NoWrites (parseSync env c) := by
  unfold parseSync
  split
  · simp [NoWrites]
  · exact noWrites_append.mpr
      ⟨noWrites_of_sends (toAll_sync env).sends rfl, noWrites_readyForQuery env false⟩

theorem good_abortQuery (c : ChildState) : Good (abortQuery env c) := by
  unfold abortQuery
  extract_lets others master
  split
  · trivial
  · refine good_ready env (good_sends
      (sends_append (sends_sendAndWait _ _) (sends_sendAndWait _ _)) ?_ fun i hi => ?_) _
    · have hperm : (env.others ++ [env.master]).Nodup :=
        (List.perm_append_singleton env.master env.others).nodup_iff.mpr env.nodup
      rw [targets_append, targets_sendAndWait, targets_sendAndWait, ← List.filter_append]
      exact hperm.filter _
    · simp only [targets_append, targets_sendAndWait, List.mem_append, others, master,
        List.mem_filter, List.mem_singleton] at hi
      simp only [Cluster.nodes, List.mem_cons]
      grind

theorem noWrites_abortQuery (c : ChildState) : NoWrites (abortQuery env c) := by
  unfold abortQuery
  extract_lets others master
  split
  · simp [NoWrites]
  · exact noWrites_append.mpr
      ⟨noWrites_of_sends (sends_append (sends_sendAndWait _ _) (sends_sendAndWait _ _)) rfl,
        noWrites_readyForQuery env _⟩

theorem good_simpleQuery (allow : Bool) (statement : Statement) (lock : Bool) :
    Good (simpleQuery env allow statement lock) := by
  have query := good_ready env ((toAll_sendQuery env statement).good env) allow
  have locked := good_quiet_append (quiet_insertLock env lock) (good_insertLock env lock) query
  have := good_quiet_append (quiet_startInternal env statement.isInternalTransactionNeeded)
    (good_startInternal env statement.isInternalTransactionNeeded) locked
  simpa [simpleQuery] using this

/-- A simple query sends no write but its own. -/
theorem write?_simpleQuery {allow lock : Bool} {statement : Statement} {op : Op} {w : WriteId}
    (hop : op ∈ simpleQuery env allow statement lock) (hw : op.write? = some w) :
    statement = .write w := by
  simp only [simpleQuery, List.mem_append] at hop
  rcases hop with ((hop | hop) | hop) | hop
  · simp [(quiet_startInternal env _ op hop).2] at hw
  · simp [(quiet_insertLock env _ op hop).2] at hw
  · rcases (toAll_sendQuery env statement).sends op hop with ⟨i, rfl⟩ | ⟨i, rfl⟩
    · cases statement <;> simp_all [Op.write?, Msg.write?]
    · simp [Op.write?] at hw
  · simp [noWrites_readyForQuery env allow op hop] at hw

theorem noWrites_reset (allow : Bool) :
    NoWrites (simpleQuery env allow .other false ++ env.nodes.map (Op.assume · .I)) := by
  refine noWrites_append.mpr ⟨fun op hop => ?_, by simp [NoWrites, Op.write?]⟩
  cases hw : op.write? with
  | none => rfl
  | some w => cases write?_simpleQuery env hop hw

theorem quiet_assume (state : TState) : Quiet (env.nodes.map (Op.assume · state)) := by
  simp [Quiet, Op.ends, Op.write?]

theorem good_assume (state : TState) : Good (env.nodes.map (Op.assume · state)) :=
  good_of_forall (by simp)

theorem quiet_assumeBegun (statement : Statement) : Quiet (assumeBegun env statement) := by
  unfold assumeBegun
  split
  · exact quiet_assume env .T
  · simp [Quiet]

theorem good_assumeBegun (statement : Statement) : Good (assumeBegun env statement) := by
  unfold assumeBegun
  split
  · exact good_assume env .T
  · trivial

theorem good_allowClose {allow : Bool} {ops : List Op} (h : Good ops) :
    Good (.allowClose allow :: ops) :=
  have quiet : Quiet [.allowClose allow] := by simp [Quiet, Op.ends, Op.write?]
  good_quiet_append quiet (good_of_forall (by simp)) h

theorem good_read (i : NodeId) : Good (sendAndWait [i] (.query .other) ++ [.settle i]) :=
  good_sends (sends_sendAndWait [i] (.query .other)) (by simp) (by simp : ∀ j ∈ _, j ∈ [i])

theorem noWrites_read {c : ChildState} (i : NodeId) : NoWrites (operations env c (.read i)) := by
  simp [NoWrites, operations, sendAndWait, Op.write?, Msg.write?]

theorem good_operations (c : ChildState) (r : Request) : Good (operations env c r) := by
  cases r with
  | query statement lock => exact good_allowClose (good_simpleQuery env true statement lock)
  | read i =>
    exact good_allowClose (good_append (good_read i) (good_of_forall (by simp))
      (fun _ => by simp [NoWrites, Op.write?]) fun _ _ _ _ => by simp [NoWritesTo, Op.write?])
  | parse internal lock =>
    have prepare := good_sendPrepare env
    have locked := good_quiet_append (quiet_insertLock env lock) (good_insertLock env lock) prepare
    have started := good_quiet_append (quiet_startInternal env internal)
      (good_startInternal env internal) locked
    have := good_append_of_noWrites (good_parseSync env c) started
      (by simp [noWrites_append, noWrites_parseSync, noWrites_sendPrepare,
        (quiet_startInternal env internal).noWrites, (quiet_insertLock env lock).noWrites])
    exact good_allowClose (by simpa using this)
  | prepared => exact good_sendPrepare env
  | execute statement =>
    refine good_allowClose (good_append ((toAll_sendStatement env _ _).good env)
      (good_assumeBegun env statement) (fun _ => ?_) fun _ _ _ _ => ?_)
    · exact (quiet_assumeBegun env statement).noWrites
    · exact (quiet_assumeBegun env statement).noWrites.to
  | sync => exact good_ready env ((toAll_sync env).good env) _
  | reset =>
    have query := good_simpleQuery env c.allowCloseTransaction .other false
    have cleared := good_append query (good_assume env .I) (fun _ => (quiet_assume env .I).noWrites)
      fun _ _ _ _ => (quiet_assume env .I).noWrites.to
    have := good_append_of_noWrites (good_abortQuery env c) cleared
      (noWrites_append.mpr ⟨noWrites_abortQuery env c, noWrites_reset env _⟩)
    simpa [operations] using this

/-- Only a write is sent as one. -/
theorem write?_operations {c : ChildState} {r : Request} {op : Op} {w : WriteId}
    (hop : op ∈ operations env c r) (hw : op.write? = some w) : r.write? = some w := by
  cases r with
  | query statement lock =>
    rcases List.mem_cons.mp hop with rfl | hop
    · simp [Op.write?] at hw
    · rw [write?_simpleQuery env hop hw]
      rfl
  | read i => simp [noWrites_read env i op hop] at hw
  | parse internal lock =>
    have : NoWrites (operations env c (.parse internal lock)) := by
      have nothing : NoWrites [Op.allowClose false] := by simp [NoWrites, Op.write?]
      have := noWrites_append.mpr ⟨nothing, noWrites_append.mpr ⟨noWrites_append.mpr
        ⟨noWrites_append.mpr ⟨noWrites_parseSync env c, (quiet_startInternal env internal).noWrites⟩,
          (quiet_insertLock env lock).noWrites⟩, noWrites_sendPrepare env⟩⟩
      exact this
    simp [this op hop] at hw
  | prepared => simp [noWrites_sendPrepare env op hop] at hw
  | execute statement =>
    rcases List.mem_cons.mp hop with rfl | hop
    · simp [Op.write?] at hw
    · simp only [List.mem_append] at hop
      rcases hop with (hop | hop) | hop
      · rcases (toAll_sendStatement env _ _).sends op hop with ⟨i, rfl⟩ | ⟨i, rfl⟩
        · cases statement <;> simp_all [Op.write?, Msg.write?, Request.write?]
        · simp [Op.write?] at hw
      · obtain ⟨i, -, rfl⟩ := List.mem_map.mp hop
        simp [Op.write?] at hw
      · simp [(quiet_assumeBegun env statement op hop).2] at hw
  | sync =>
    have := noWrites_append.mpr ⟨noWrites_of_sends (toAll_sync env).sends rfl,
      noWrites_readyForQuery env c.allowCloseTransaction⟩
    simp [this op hop] at hw
  | reset =>
    have : NoWrites (operations env c .reset) := by
      have := noWrites_append.mpr ⟨noWrites_abortQuery env c,
        noWrites_reset env c.allowCloseTransaction⟩
      simpa [operations] using this
    simp [this op hop] at hw

/-- A write is sent to every node. -/
theorem mem_operations {c : ChildState} {r : Request} {w : WriteId} (hw : r.write? = some w)
    {i : NodeId} (hi : i ∈ env.nodes) :
    ∃ m, .send i m ∈ operations env c r ∧ m.write? = some w := by
  cases r with
  | query statement lock =>
    cases statement with
    | write v =>
      have := (toAll_sendQuery env (.write v)).mem env hi
      exact ⟨.query (.write v), by simp [operations, simpleQuery, this], hw⟩
    | _ => simp [Request.write?] at hw
  | execute statement =>
    cases statement with
    | write v =>
      have := (toAll_sendStatement env (.write v) (.execute (.write v))).mem env hi
      exact ⟨.execute (.write v), by simp [operations, this], hw⟩
    | _ => simp [Request.write?] at hw
  | _ => simp [Request.write?] at hw

end

end PgPool.Serial
