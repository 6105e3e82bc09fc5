import PgPool.Query.WhereToSend

/-!
# What routing guarantees

The abstract view of `pool_where_to_send`: which statements only read, which belong to every node,
and which inherit a node map.  `masterSlaveNodes_off_primary` and `replicationNodes_partial` say
that the code leaves the primary, or leaves out a replica, for such statements alone.
-/

namespace PgPool

open Walk

/-! ## Reads and statements for every node -/

/-- A place where a statement writes: `SELECT INTO`, `FOR UPDATE` or `FOR SHARE`, a sequence
function, or a function that the lists take for a writing one. -/
def writesAt (cfg : PoolConfig) : Node → Bool
  | .selectStmt stmt => !stmt.intoClause.isNull || !stmt.lockingClause.isEmpty
  | .funcCall funcname args aggOrder overClause =>
      funcname.any isSequenceName || functionCallWalker cfg (.funcCall funcname args aggOrder overClause)
  | _ => false

/-- A SELECT or a COPY TO that writes nowhere, at any depth. -/
def PureRead (cfg : PoolConfig) (node : Node) : Prop :=
  ((∃ stmt, node = .selectStmt stmt) ∨
      ∃ relation query filename, node = .copyStmt relation query false filename) ∧
    ∀ m, Within Node.children node m → writesAt cfg m = false

/-- The statements that are routed as reads: a SELECT without INTO and locking of its own, without
a sequence function as a column of its own and without a writing call where the walker looks; or a
COPY TO STDOUT. -/
inductive RoutedRead (cfg : PoolConfig) : Node → Prop
  | select (stmt : SelectStmt Node) (into : stmt.intoClause.isNull = true)
      (locking : stmt.lockingClause = []) (sequence : ∀ t ∈ stmt.targetList, isSequenceTarget t = false)
      (calls : ∀ m, Within Node.rawChildren (.selectStmt stmt) m → functionCallWalker cfg m = false) :
      RoutedRead cfg (.selectStmt stmt)
  | copy (relation query : Node) : RoutedRead cfg (.copyStmt relation query false none)

/-- The statements that set up every backend: SET (but for a switch to read-write), DISCARD, LOCK in
a mode that standbys allow, and the PREPARE of such a statement. -/
inductive ForEveryNode : Node → Prop
  | set (kind : VariableSetKind) (name : Option String) (args : List Node)
      (both : sendVariableSetToWhere kind name args = .both) :
      ForEveryNode (.variableSetStmt kind name args)
  | discard (target : DiscardMode) : ForEveryNode (.discardStmt target)
  | lock (mode : Nat) (weak : mode < rowExclusiveLock) : ForEveryNode (.lockStmt mode)
  | prepare (name : String) (query : Node) (inner : ForEveryNode query) :
      ForEveryNode (.prepareStmt name query)

/-- EXPLAIN ANALYZE of a SELECT, whatever the SELECT does. -/
def ExplainAnalyze (node : Node) : Prop :=
  ∃ stmt options arg, node = .explainStmt (.selectStmt stmt) options ∧
    Node.defElem "analyze" arg ∈ options

/-- The statement names a prepared statement whose node map it inherits. -/
def Inherits (node : Node) (name : String) : Prop :=
  (∃ into params, node = .executeStmt name into params) ∨ node = .deallocateStmt (some name)

/-! ## Node maps -/

namespace NodeMap

theorem set_self {env : Setup} {map : NodeMap} {i : NodeId} (hi : i < env.numBackends) :
    map.set i i = true := by
  have hle : i ≤ maxNumBackends := Nat.le_trans (Nat.le_of_lt hi) env.numBackends_le
  simp [set, Nat.not_lt.2 hle]

theorem set_clear {i j : NodeId} (h : NodeMap.clear.set i j = true) : j = i := by
  unfold set at h
  split at h
  · cases h
  · by_cases hj : j = i
    · exact hj
    · simp [hj, clear] at h

theorem setall_of_up {env : Setup} {map : NodeMap} {i : NodeId} (hi : i < env.numBackends)
    (hup : env.isUp i = true) : map.setall env i = true := by
  simp [setall, hi, hup]

theorem setall_of_mem {env : Setup} {map : NodeMap} {i : NodeId} (h : map i = true) :
    map.setall env i = true := by
  simp [setall, h]

end NodeMap

/-! ## Classification -/

section

variable {env : Setup} {lk : Lookups} {s s' : Session} {query : String} {node : Node} {map : NodeMap}

theorem isSelectQuery_cases {cfg : PoolConfig} (h : isSelectQuery cfg node query = true) :
    (∃ stmt, node = .selectStmt stmt ∧ stmt.intoClause.isNull = true ∧ stmt.lockingClause = []) ∨
      (∃ relation q, node = .copyStmt relation q false none) ∨ ExplainAnalyze node := by
  cases node with
  | selectStmt stmt =>
    refine Or.inl ⟨stmt, rfl, ?_⟩
    by_cases hw : (!stmt.intoClause.isNull || !stmt.lockingClause.isEmpty) = true
    · simp [isSelectQuery, hw] at h
    · simpa using hw
  | copyStmt relation q isFrom filename =>
    simp only [isSelectQuery, Bool.and_eq_true, Bool.not_eq_true', Option.isNone_iff_eq_none] at h
    obtain ⟨rfl, rfl⟩ := h
    exact Or.inr (Or.inl ⟨relation, q, rfl⟩)
  | explainStmt q options =>
    cases q with
    | selectStmt stmt =>
      obtain ⟨opt, hopt, hname⟩ := List.any_eq_true.1 h
      split at hname
      · rename_i defname arg
        rw [beq_iff_eq.1 hname] at hopt
        exact Or.inr (Or.inr ⟨stmt, options, arg, rfl, hopt⟩)
      · cases hname
    | _ => cases h
  | _ => cases h

theorem isSequenceQuery_eq_false {stmt : SelectStmt Node}
    (h : isSequenceQuery (.selectStmt stmt) = false) :
    ∀ t ∈ stmt.targetList, isSequenceTarget t = false := by
  simpa [isSequenceQuery] using h

/-- A SELECT that passes the tests of the routing code is a routed read. -/
theorem RoutedRead.of_select {cfg : PoolConfig} {stmt : SelectStmt Node}
    (into : stmt.intoClause.isNull = true) (locking : stmt.lockingClause = [])
    (hseq : isSequenceQuery (.selectStmt stmt) = false)
    (hcall : poolHasFunctionCall cfg (.selectStmt stmt) = false) :
    RoutedRead cfg (.selectStmt stmt) := by
  refine .select stmt into locking (isSequenceQuery_eq_false hseq) ?_
  intro m hm
  cases hw : functionCallWalker cfg m with
  | false => rfl
  | true =>
    rw [poolHasFunctionCall_iff.2 ⟨rfl, m, hm, hw⟩] at hcall
    cases hcall

theorem sendToWhere_both (node : Node) (h : sendToWhere node = .both) : ForEveryNode node := by
  cases node with
  | selectStmt stmt =>
    rw [sendToWhere_selectStmt] at h
    split at h
    · cases h
    · split at h
      · cases h
      · split at h <;> cases h
  | copyStmt relation query isFrom filename =>
    rw [sendToWhere_copyStmt] at h
    split at h <;> cases h
  | lockStmt mode =>
    rw [sendToWhere_lockStmt] at h
    split at h
    · cases h
    · rename_i hmode
      exact .lock mode (Nat.lt_of_not_le hmode)
  | variableSetStmt kind name args =>
    rw [sendToWhere_variableSetStmt] at h
    exact .set kind name args h
  | discardStmt target => exact .discard target
  | prepareStmt name query =>
    rw [sendToWhere_prepareStmt] at h
    exact .prepare name query (sendToWhere_both query h)
  | plain t word =>
    rw [sendToWhere_other (by simp [Node.tag_plain, NodeTag.isPlain])] at h
    cases h
  | value v => cases v <;> cases h
  | _ =>
    rw [sendToWhere_other (by simp [Node.tag])] at h
    cases h

theorem sendVariableSetToWhere_cases (kind : VariableSetKind) (name : Option String)
    (args : List Node) :
    sendVariableSetToWhere kind name args = .primary ∨
      sendVariableSetToWhere kind name args = .both := by
  unfold sendVariableSetToWhere
  split
  · split
    · exact Or.inl rfl
    · exact Or.inr rfl
  · split
    · split
      · exact Or.inl rfl
      · exact Or.inr rfl
    · exact Or.inr rfl

/-- A statement that is neither for the primary nor for every node is a SELECT, a COPY TO or the
PREPARE of one. -/
theorem sendToWhere_either (hp : sendToWhere node ≠ .primary) (hb : sendToWhere node ≠ .both) :
    (∃ stmt, node = .selectStmt stmt ∧ isSequenceQuery node = false) ∨
      (∃ relation q filename, node = .copyStmt relation q false filename) ∨
      ∃ name q, node = .prepareStmt name q := by
  cases node with
  | selectStmt stmt =>
    refine Or.inl ⟨stmt, rfl, ?_⟩
    cases hseq : isSequenceQuery (.selectStmt stmt) with
    | false => rfl
    | true =>
      rw [sendToWhere_selectStmt, hseq] at hp
      simp at hp
  | copyStmt relation q isFrom filename =>
    cases isFrom with
    | false => exact Or.inr (Or.inl ⟨relation, q, filename, rfl⟩)
    | true => exact absurd rfl hp
  | lockStmt mode =>
    rw [sendToWhere_lockStmt] at hp hb
    by_cases hmode : rowExclusiveLock ≤ mode
    · exact absurd (if_pos hmode) hp
    · exact absurd (if_neg hmode) hb
  | variableSetStmt kind name args =>
    rw [sendToWhere_variableSetStmt] at hp hb
    rcases sendVariableSetToWhere_cases kind name args with h | h
    · exact absurd h hp
    · exact absurd h hb
  | discardStmt target => exact absurd rfl hb
  | prepareStmt name q => exact Or.inr (Or.inr ⟨name, q, rfl⟩)
  | plain t word =>
    exact absurd (sendToWhere_other (by simp [Node.tag_plain, NodeTag.isPlain])) hp
  | value v => cases v <;> exact absurd rfl hp
  | _ => exact absurd (sendToWhere_other (by simp [Node.tag])) hp

/-- Only EXECUTE and DEALLOCATE change the map that the mode has given. -/
theorem inheritNodes_cases (env : Setup) (s : Session) (qc : QcId) (node : Node) (map : NodeMap) :
    inheritNodes env s qc node map = map ∨
      (node = .deallocateStmt none ∧ inheritNodes env s qc node map = map.setall env) ∨
      ∃ name msg, Inherits node name ∧ preparedMessage s name = some msg ∧ msg.queryContext ≠ qc ∧
        inheritNodes env s qc node map = (s.contexts msg.queryContext).whereToSend := by
  have hnamed : ∀ name, Inherits node name →
      (preparedMessage s name = none → inheritNodes env s qc node map = map) →
      (∀ msg, preparedMessage s name = some msg → inheritNodes env s qc node map =
        if msg.queryContext = qc then map else (s.contexts msg.queryContext).whereToSend) →
      inheritNodes env s qc node map = map ∨
        ∃ name msg, Inherits node name ∧ preparedMessage s name = some msg ∧
          msg.queryContext ≠ qc ∧
          inheritNodes env s qc node map = (s.contexts msg.queryContext).whereToSend := by
    intro name hname hnone hsome
    cases hmsg : preparedMessage s name with
    | none => exact Or.inl (hnone hmsg)
    | some msg =>
      by_cases hqc : msg.queryContext = qc
      · exact Or.inl ((hsome msg hmsg).trans (if_pos hqc))
      · exact Or.inr ⟨name, msg, hname, hmsg, hqc, (hsome msg hmsg).trans (if_neg hqc)⟩
  cases node with
  | executeStmt name into params =>
    rcases hnamed name (Or.inl ⟨into, params, rfl⟩) (fun h => by simp only [inheritNodes, h])
      (fun msg h => by simp only [inheritNodes, h]) with h | h
    · exact Or.inl h
    · exact Or.inr (Or.inr h)
  | deallocateStmt name =>
    cases name with
    | none => exact Or.inr (Or.inl ⟨rfl, rfl⟩)
    | some name =>
      rcases hnamed name (Or.inr rfl) (fun h => by simp only [inheritNodes, h])
        (fun msg h => by simp only [inheritNodes, h]) with h | h
      · exact Or.inl h
      · exact Or.inr (Or.inr h)
  | _ => exact Or.inl rfl

/-! ## Master/slave mode -/

theorem loadBalanceTarget_cases (env : Setup) (lk : Lookups) (node : Node) (lb : NodeId) :
    loadBalanceTarget env lk lb node = env.primary ∨
      loadBalanceTarget env lk lb node = lb ∧
        poolHasFunctionCall env.toPoolConfig node = false := by
  unfold loadBalanceTarget
  split
  · exact Or.inl rfl
  · split
    · exact Or.inl rfl
    · rename_i hcall
      rw [Bool.not_eq_true] at hcall
      split
      · exact Or.inl rfl
      · split
        · exact Or.inl rfl
        · exact Or.inr ⟨rfl, hcall⟩

/-- A statement that may go to either kind of node goes to the primary, or it is a load balanced
read without writing calls. -/
theorem eitherTarget_cases (env : Setup) (lk : Lookups) (s : Session) (query : String)
    (node : Node) :
    eitherTarget env lk s query node = env.primary ∨
      eitherTarget env lk s query node = s.loadBalanceNodeId ∧
        isSelectQuery env.toPoolConfig node query = true ∧
        poolHasFunctionCall env.toPoolConfig node = false := by
  unfold eitherTarget
  split
  · rename_i hcan
    simp only [canLoadBalance, Bool.and_eq_true] at hcan
    split
    · rcases loadBalanceTarget_cases env lk node s.loadBalanceNodeId with h | ⟨h, hcall⟩
      · exact Or.inl h
      · exact Or.inr ⟨h, hcan.1.2, hcall⟩
    · exact Or.inl rfl
  · exact Or.inl rfl

/-- In master/slave mode a node map without the primary belongs to a statement for every node while
the primary is down, or to a routed read. -/
theorem masterSlaveNodes_off_primary
    (h : masterSlaveNodes env lk s query node env.primary = false) :
    (ForEveryNode node ∧ env.isUp env.primary = false) ∨
      (RoutedRead env.toPoolConfig node ∧
        masterSlaveNodes env lk s query node = NodeMap.clear.set s.loadBalanceNodeId) := by
  have hprim := env.primary_lt
  by_cases hp : sendToWhere node = .primary
  · have hmap : masterSlaveNodes env lk s query node = NodeMap.clear.set env.primary := by
      rw [masterSlaveNodes, hp]
    rw [hmap, NodeMap.set_self hprim] at h
    cases h
  by_cases hb : sendToWhere node = .both
  · have hmap : masterSlaveNodes env lk s query node = NodeMap.clear.setall env := by
      rw [masterSlaveNodes, hb]
    refine Or.inl ⟨sendToWhere_both node hb, ?_⟩
    cases hup : env.isUp env.primary with
    | false => rfl
    | true =>
      rw [hmap, NodeMap.setall_of_up hprim hup] at h
      cases h
  · have hmap : masterSlaveNodes env lk s query node =
        NodeMap.clear.set (eitherTarget env lk s query node) := by
      unfold masterSlaveNodes
      split <;> simp_all
    rcases eitherTarget_cases env lk s query node with ht | ⟨ht, hsel, hcall⟩
    · rw [hmap, ht, NodeMap.set_self hprim] at h
      cases h
    · refine Or.inr ⟨?_, by rw [hmap, ht]⟩
      rcases isSelectQuery_cases hsel with ⟨stmt, rfl, hinto, hlock⟩ | ⟨relation, q, rfl⟩ |
        ⟨stmt, options, arg, rfl, -⟩
      · rcases sendToWhere_either hp hb with ⟨_, _, hseq⟩ | ⟨_, _, _, hne⟩ | ⟨_, _, hne⟩
        · exact .of_select hinto hlock hseq hcall
        · cases hne
        · cases hne
      · exact .copy relation q
      · exact absurd rfl hp

/-- **Leaving the primary.** In master/slave mode a node map without the primary belongs to a routed
read, to a statement for every node while the primary is down, or to an EXECUTE or DEALLOCATE, which
has the map of the statement it names. -/
theorem nodesToSend_off_primary (hms : env.masterSlaveMode = true) {qc : QcId}
    (h : nodesToSend env lk s qc query node env.primary = false) :
    (ForEveryNode node ∧ env.isUp env.primary = false) ∨
      (RoutedRead env.toPoolConfig node ∧
        nodesToSend env lk s qc query node = NodeMap.clear.set s.loadBalanceNodeId) ∨
      ∃ name msg, Inherits node name ∧ preparedMessage s name = some msg ∧ msg.queryContext ≠ qc ∧
        nodesToSend env lk s qc query node = (s.contexts msg.queryContext).whereToSend := by
  have hprim := env.primary_lt
  unfold nodesToSend at h ⊢
  by_cases hnlb : hasNoLoadBalance query = true
  · rw [if_pos hnlb, if_pos hms, NodeMap.set_self hprim] at h
    cases h
  rw [if_neg hnlb] at h ⊢
  have hmode : modeNodes env lk s query node = masterSlaveNodes env lk s query node := by
    rw [modeNodes, env.rawMode_of_masterSlave hms]
    simp [hms]
  rw [hmode] at h ⊢
  rcases inheritNodes_cases env s qc node (masterSlaveNodes env lk s query node) with
    heq | ⟨rfl, heq⟩ | hinh
  · rw [heq] at h ⊢
    rcases masterSlaveNodes_off_primary h with hall | hread
    · exact Or.inl hall
    · exact Or.inr (Or.inl hread)
  · -- DEALLOCATE ALL adds nodes to the primary
    rw [heq, NodeMap.setall_of_mem] at h
    · cases h
    · exact NodeMap.set_self hprim
  · exact Or.inr (Or.inr hinh)

/-! ## Replication mode -/

/-- In replication mode a node map that leaves out a node that is up belongs to a routed read or to
EXPLAIN ANALYZE of a SELECT. -/
theorem replicationNodes_partial {i : NodeId} (hi : i < env.numBackends)
    (hup : env.isUp i = true) (h : replicationNodes env s query node i = false) :
    RoutedRead env.toPoolConfig node ∨ ExplainAnalyze node := by
  unfold replicationNodes at h
  split at h
  · rename_i hsel
    simp only [Bool.and_eq_true, Bool.not_eq_true'] at hsel
    split at h
    · rw [NodeMap.setall_of_up hi hup] at h
      cases h
    · rename_i hcall
      simp only [Bool.or_eq_true, not_or, Bool.not_eq_true] at hcall
      rcases isSelectQuery_cases hsel.1 with ⟨stmt, rfl, hinto, hlock⟩ | ⟨relation, q, rfl⟩ |
        hexplain
      · exact Or.inl (.of_select hinto hlock hsel.2 hcall.1)
      · exact Or.inl (.copy relation q)
      · exact Or.inr hexplain
  · rw [NodeMap.setall_of_up hi hup] at h
    cases h

/-- **Leaving out a replica.** In replication mode a text without the comment that asks for no load
balancing has a node map without some node that is up only if the statement is a routed read, an
EXPLAIN ANALYZE of a SELECT, or an EXECUTE or DEALLOCATE, which has the map of the statement it
names. -/
theorem nodesToSend_partial (hrep : env.replicationMode = true)
    (hnlb : hasNoLoadBalance query = false) {qc : QcId} {i : NodeId} (hi : i < env.numBackends)
    (hup : env.isUp i = true) (h : nodesToSend env lk s qc query node i = false) :
    RoutedRead env.toPoolConfig node ∨ ExplainAnalyze node ∨
      ∃ name msg, Inherits node name ∧ preparedMessage s name = some msg ∧ msg.queryContext ≠ qc ∧
        nodesToSend env lk s qc query node = (s.contexts msg.queryContext).whereToSend := by
  have hmode : nodesToSend env lk s qc query node =
      inheritNodes env s qc node (replicationNodes env s query node) := by
    rw [nodesToSend, hnlb, modeNodes, env.rawMode_of_replication hrep,
      env.masterSlave_of_replication hrep]
    rfl
  rw [hmode] at h ⊢
  rcases inheritNodes_cases env s qc node (replicationNodes env s query node) with
    heq | ⟨rfl, heq⟩ | hinh
  · rw [heq] at h
    rcases replicationNodes_partial hi hup h with hread | hexplain
    · exact Or.inl hread
    · exact Or.inr (Or.inl hexplain)
  · rw [heq, NodeMap.setall_of_up hi hup] at h
    cases h
  · exact Or.inr (Or.inr hinh)

end

end PgPool
