import PgPool.Traffic.Maps

/-!
# What the node maps say about the statements

An EXECUTE has the map of the statement it names, which has been routed earlier in the run and may
have inherited its map as well.  `Passes` follows the names back; from it, which statements leave the
primary, and which leave out a replica.
-/

namespace PgPool

open Control Session

namespace Child

/-- A statement that is of a kind, or that names a statement which was so when it was prepared:
`found` looks the name up in an earlier state of the run. -/
inductive Passes (env : Setup) (Here : String → Node → Prop) : Child → String → Node → Prop
  | here {c : Child} {sql : String} {node : Node} (here : Here sql node) : Passes env Here c sql node
  | named {c₀ c : Child} {sql name : String} {node : Node} {msg : SentMessage}
      (run : Transition.Run (step env) Transition.Any c₀ c) (inherits : Inherits node name)
      (found : preparedMessage c₀.session name = some msg)
      (inner : Passes env Here c₀ (c₀.session.contexts msg.queryContext).originalQuery
        (c₀.session.contexts msg.queryContext).parseTree) :
      Passes env Here c sql node

section

variable {env : Setup} {Here : String → Node → Prop} {Miss : NodeMap → Prop} {c c' : Child} {e : Event}

theorem Passes.mono {sql : String} {node : Node} (h : Passes env Here c sql node)
    (run : Transition.Run (step env) Transition.Any c c') : Passes env Here c' sql node := by
  cases h with
  | here here => exact .here here
  | named run' inherits found inner => exact .named (run'.trans run) inherits found inner

/-- A map that misses something belongs to a statement of the kind, or is that of the statement it
names. -/
def Explained (Here : String → Node → Prop) (Miss : NodeMap → Prop) (s : Session) (qc : QcId)
    (sql : String) (node : Node) : Prop :=
  Here sql node ∨ ∃ name msg, Inherits node name ∧ preparedMessage s name = some msg ∧
    msg.queryContext ≠ qc ∧ Miss (s.contexts msg.queryContext).whereToSend

/-- The maps of the sent messages that miss something are accounted for, and a client is not served
in the reset context. -/
structure MapsPass (env : Setup) (Here : String → Node → Prop) (Miss : NodeMap → Prop) (c : Child) :
    Prop where
  serving : c.phase = .serving → c.session.resetContext = false
  keyed : c.session.control.WellKeyed
  alone : ∀ q, c.session.control.Held q → CommitAlone env (c.session.contexts q)
  passes : ∀ q, c.session.control.Held q → Miss (c.session.contexts q).whereToSend →
    Passes env Here c (c.session.contexts q).originalQuery (c.session.contexts q).parseTree

theorem not_held_of_empty {d : Control} {q : QcId} (list : d.messageList = [])
    (pending : d.uncompletedMessage = none) : ¬ d.Held q := by
  intro h
  rcases h with ⟨m, hm, -⟩ | ⟨m, hm, -⟩
  · rw [list] at hm
    cases hm
  · rw [pending] at hm
    cases hm

/-- A state without sent messages. -/
theorem MapsPass.of_empty (serving : c.phase = .serving → c.session.resetContext = false)
    (keyed : c.session.control.WellKeyed) (list : c.session.messageList = [])
    (pending : c.session.uncompletedMessage = none) : MapsPass env Here Miss c :=
  ⟨serving, keyed, fun _ hq => absurd hq (not_held_of_empty list pending),
    fun _ hq _ => absurd hq (not_held_of_empty list pending)⟩

theorem mapsPass_discard (h : c.session.control.WellKeyed) : MapsPass env Here Miss c.discard :=
  .of_empty nofun (wellKeyed_destroy h) rfl rfl

theorem serving_of_phaseAfter {reply : Reply} {s : Session} {phase : Phase}
    (h : phaseAfter reply s phase = .serving) : phase = .serving := by
  unfold phaseAfter at h
  split at h
  · split at h <;> cases h
  · exact h

section

variable (hraw : env.rawMode = false)
  (hgrow : ∀ map map' : NodeMap, (∀ i, map i = true → map' i = true) → Miss map' → Miss map)
  (hroute : ∀ lk s qc sql node, Miss (nodesToSend env lk s qc sql node) →
    Explained Here Miss s qc sql node)

include hgrow hroute

/-- A step that places the contexts of the sent messages. -/
theorem MapsPass.placed (h : MapsPass env Here Miss c)
    (hrun : Transition.Run (step env) Transition.Any c c')
    (hserving : c'.phase = .serving → c'.session.resetContext = false)
    (hkeyed : c'.session.control.WellKeyed)
    (hplaced : ∀ q, c'.session.control.Held q →
      Placed env c.session q (c'.session.contexts q)) : MapsPass env Here Miss c' := by
  refine ⟨hserving, hkeyed, fun q hq => ?_, fun q hq hmiss => ?_⟩
  · cases hplaced q hq with
    | kept held widened => exact widened.alone (h.alone q held)
    | routed lk s₀ asIn map alone => exact alone
  · cases hplaced q hq with
    | kept held widened =>
      rw [widened.query, widened.tree]
      exact (h.passes q held (hgrow _ _ widened.map hmiss)).mono hrun
    | routed lk s₀ asIn map alone =>
      rw [map] at hmiss
      rcases hroute _ _ _ _ _ hmiss with hhere | ⟨name, msg, hinherits, hfound, hne, hinner⟩
      · exact .here hhere
      · have hfound' : preparedMessage c.session name = some msg := by
          unfold preparedMessage getSentMessage at hfound ⊢
          rwa [asIn.list] at hfound
        have hmem : msg ∈ c.session.control.messageList := (preparedMessage_spec hfound').1
        rw [asIn.others _ hne] at hinner
        exact .named hrun hinherits hfound' (h.passes _ (.of_mem hmem) hinner)

include hraw

theorem mapsPass_step (h : MapsPass env Here Miss c) (hstep : step env c e = some c') :
    MapsPass env Here Miss c' := by
  have hrun : Transition.Run (step env) Transition.Any c c' := .step .refl e trivial hstep
  have hs := stepped_of_step hstep
  have hkeyed : c'.session.control.WellKeyed := wellKeyed_stepped h.keyed hs
  cases hs with
  | connect idle supplied => exact .of_empty (fun _ => rfl) hkeyed rfl rfl
  | frontend serving ready next =>
    have hreset := h.serving serving
    refine h.placed hgrow hroute hrun (fun _ => ?_) hkeyed fun q hq => ?_
    · exact (reset_processFrontendResponse ready next).trans hreset
    · exact placed_processFrontendResponse hraw h.keyed ready hreset h.alone next hq
  | backend waiting next =>
    have hwidens := widens_processBackendResponse next
    refine h.placed hgrow hroute hrun (fun hphase => ?_) hkeyed fun q hq => ?_
    · exact hwidens.reset.trans (h.serving (serving_of_phaseAfter hphase))
    · exact .kept (held_replied (replied_processBackendResponse next) hq) (hwidens.contexts q)
  | @disconnect terminate cached serving ready =>
    have hsession : ∀ s : Session,
        s = (if terminate then c.session.unsetDoingExtendedQueryMessage else c.session) →
          s.control.Held = c.session.control.Held ∧ s.contexts = c.session.contexts := by
      intro s hs
      subst hs
      cases terminate <;> exact ⟨rfl, rfl⟩
    revert hkeyed hrun
    unfold disconnect
    split
    · exact fun _ _ => h
    · generalize hd : (if terminate then c.session.unsetDoingExtendedQueryMessage
        else c.session) = d
      obtain ⟨hheld, hcontexts⟩ := hsession d hd.symm
      simp only
      cases cached with
      | true =>
        intro hrun hkeyed
        refine h.placed hgrow hroute hrun nofun hkeyed fun q hq => ?_
        have hq' : d.control.Held q := hq
        rw [hheld] at hq'
        refine .kept hq' ?_
        change Widened env (c.session.contexts q) (d.contexts q)
        rw [hcontexts]
        exact .refl env _
      | false =>
        intro hrun hkeyed
        exact .of_empty nofun hkeyed rfl rfl
  | @reset ans qcnt resetting =>
    revert hkeyed hrun
    unfold Child.reset
    split
    · exact fun _ _ => mapsPass_discard h.keyed
    · rename_i hnext
      intro hrun hkeyed
      exact h.placed hgrow hroute hrun nofun hkeyed fun q hq =>
        placed_resetBackend h.keyed hnext hq
    · rename_i hnext
      intro hrun hkeyed
      exact h.placed hgrow hroute hrun nofun hkeyed fun q hq =>
        placed_resetBackend h.keyed hnext hq
    · exact fun _ hkeyed => .of_empty nofun hkeyed rfl rfl
  | abandon resetting => exact mapsPass_discard h.keyed

theorem mapsPass {P : Child → Event → Prop} (h : Reachable env P c) : MapsPass env Here Miss c := by
  have hinit : Reachable env P init := .refl
  exact Transition.Run.invariant h
    (fun _ _ _ hi _ hs => mapsPass_step hraw hgrow hroute hi hs)
    (.of_empty nofun (wellKeyed hinit) rfl rfl)

variable (Here Miss) in
/-- **Names followed back.** Where a statement is routed in the course of a run, a map that misses
something belongs to a statement of the kind, or to one that names such a statement. -/
theorem passes_of_routed {P : Child → Event → Prop} (h : Reachable env P c) {lk : Lookups}
    {qc : QcId} {s : Session} {sql : String} {node : Node} (hs : AsIn qc c.session s)
    (hmiss : Miss (nodesToSend env lk s qc sql node)) :
    Here sql node ∨ ∃ name msg, Inherits node name ∧ preparedMessage c.session name = some msg ∧
      Passes env Here c (c.session.contexts msg.queryContext).originalQuery
        (c.session.contexts msg.queryContext).parseTree := by
  have hpass : MapsPass env Here Miss c := mapsPass hraw hgrow hroute h
  rcases hroute _ _ _ _ _ hmiss with hhere | ⟨name, msg, hinherits, hfound, hne, hinner⟩
  · exact Or.inl hhere
  · have hfound' : preparedMessage c.session name = some msg := by
      unfold preparedMessage getSentMessage at hfound ⊢
      rwa [hs.list] at hfound
    have hmem : msg ∈ c.session.control.messageList := (preparedMessage_spec hfound').1
    rw [hs.others _ hne] at hinner
    exact Or.inr ⟨name, msg, hinherits, hfound', hpass.passes _ (.of_mem hmem) hinner⟩

end

end

/-! ## Master/slave mode -/

/-- The statements that are routed off the primary: reads, and, while the primary is down, what goes
to every node. -/
def OffPrimary (env : Setup) (node : Node) : Prop :=
  RoutedRead env.toPoolConfig node ∨ ForEveryNode node ∧ env.isUp env.primary = false

section

variable {env : Setup} {P : Child → Event → Prop} {c : Child} {lk : Lookups} {qc : QcId}
  {s : Session} {sql : String} {node : Node}

theorem explained_off_primary (hms : env.masterSlaveMode = true)
    (h : nodesToSend env lk s qc sql node env.primary = false) :
    Explained (fun _ n => OffPrimary env n) (fun map => map env.primary = false) s qc sql node := by
  rcases nodesToSend_off_primary hms h with hall | ⟨hread, -⟩ |
    ⟨name, msg, hinherits, hfound, hne, hmap⟩
  · exact Or.inl (Or.inr hall)
  · exact Or.inl (Or.inl hread)
  · rw [hmap] at h
    exact Or.inr ⟨name, msg, hinherits, hfound, hne, h⟩

end

/-- `SELECT 1` prepared as `s` on the load balance node 1. -/
def prepareOnStandby : List Event :=
  [.connect 1 none .v3, .frontend (.parse "s" "SELECT 1") .quiet, .backend .parseComplete .quiet,
   .frontend .sync .quiet, .backend .readyForQuery .quiet]

/-- The state after that. -/
def preparedOnStandby : Child := after .standbyPair prepareOnStandby

theorem reachable_preparedOnStandby :
    Reachable .standbyPair Transition.Any preparedOnStandby :=
  reachable_after (by decide +kernel) (Transition.holds_any _ _)

/-- A call of `nextval` as a column. -/
def nextval : Node := .resTarget [] (.funcCall ["nextval"] [] [] .null)

def selectNextval : Node := .selectStmt (.ofTargets [nextval])

/-- `SELECT (SELECT nextval(..))`. -/
def nestedNextval : Node :=
  .selectStmt (.ofTargets [.resTarget [] (.subLink .null selectNextval)])

/-- `COPY (SELECT nextval(..)) TO STDOUT`. -/
def copyNextval : Node := .copyStmt .null selectNextval false none

/-- `SELECT 1 FOR UPDATE`. -/
def selectForUpdate : Node :=
  .selectStmt { SelectStmt.ofTargets [.resTarget [] (.aConst (.integer 1))] with
    lockingClause := [.lockingClause []] }

/-- `SELECT 1 FROM (SELECT 1 FOR UPDATE) AS a`. -/
def nestedForUpdate : Node :=
  .selectStmt { SelectStmt.ofTargets [.resTarget [] (.aConst (.integer 1))] with
    fromClause := [.rangeSubselect selectForUpdate .null] }

/-- `SET search_path TO s`. -/
def setSearchPath : Node :=
  .variableSetStmt .setValue (some "search_path") [.aConst (.string "s")]

theorem numBackends_standbyPair : Setup.standbyPair.numBackends ≤ maxNumBackends :=
  Setup.standbyPair.numBackends_le

theorem master_standbyPair : Setup.standbyPair.masterNodeId < Setup.standbyPair.numBackends :=
  Setup.standbyPair.masterNodeId_lt

/-- The primary is down. -/
def standbyOnly : Setup := { Setup.standbyPair with
  backendStatus := fun i => if i = 0 then .down else .up
  numBackends_le := numBackends_standbyPair
  masterNodeId_lt := master_standbyPair }

/-- Routed off the primary, from a state of a run. -/
def RoutedOff (env : Setup) (c : Child) (sql : String) (node : Node) : Prop :=
  Reachable env Transition.Any c ∧
    ((poolWhereToSend env Answers.quiet.lookups 7 sql node c.session).contexts 7).whereToSend
      env.primary = false

/-- The state after a client has connected, with the load balance node 1. -/
def connected (env : Setup) : Child := after env [.connect 1 none .v3]

theorem not_pureRead {cfg : PoolConfig} {node m : Node} (h : Walk.Within Node.children node m)
    (hm : writesAt cfg m = true) : ¬ PureRead cfg node := by
  intro hread
  rw [hread.2 m h] at hm
  cases hm

theorem not_pureRead_of_other {cfg : PoolConfig} {node : Node} (hs : ∀ stmt, node ≠ .selectStmt stmt)
    (hc : ∀ relation query filename, node ≠ .copyStmt relation query false filename) :
    ¬ PureRead cfg node := by
  intro hread
  rcases hread.1 with ⟨stmt, h⟩ | ⟨relation, query, filename, h⟩
  · exact hs stmt h
  · exact hc relation query filename h

theorem writesAt_nextval (cfg : PoolConfig) :
    writesAt cfg (.funcCall ["nextval"] [] [] .null) = true := by
  have hname : isSequenceName "nextval" = true := by decide +kernel
  simp [writesAt, hname]

theorem within_selectNextval :
    Walk.Within Node.children selectNextval (.funcCall ["nextval"] [] [] .null) := by
  refine .below (b := nextval) ?_ (.below ?_ (.self _))
  · simp [selectNextval, Node.children, SelectStmt.parts, SelectStmt.ofTargets]
  · simp [nextval, Node.children]

theorem not_pureRead_nestedNextval (cfg : PoolConfig) : ¬ PureRead cfg nestedNextval := by
  refine not_pureRead (.below (b := .resTarget [] (.subLink .null selectNextval)) ?_
    (.below (b := .subLink .null selectNextval) ?_ (.below ?_ within_selectNextval)))
    (writesAt_nextval cfg)
  · simp [nestedNextval, Node.children, SelectStmt.parts, SelectStmt.ofTargets]
  · simp [Node.children]
  · simp [Node.children]

theorem not_pureRead_copyNextval (cfg : PoolConfig) : ¬ PureRead cfg copyNextval := by
  refine not_pureRead (.below ?_ within_selectNextval) (writesAt_nextval cfg)
  simp [copyNextval, Node.children]

theorem not_pureRead_nestedForUpdate (cfg : PoolConfig) : ¬ PureRead cfg nestedForUpdate := by
  refine not_pureRead (m := selectForUpdate)
    (.below (b := .rangeSubselect selectForUpdate .null) ?_ (.below ?_ (.self _))) ?_
  · simp [nestedForUpdate, Node.children, SelectStmt.parts, SelectStmt.ofTargets]
  · simp [Node.children]
  · simp [selectForUpdate, writesAt]

theorem reachable_connected (env : Setup) : Reachable env Transition.Any (connected env) :=
  reachable_after rfl (Transition.holds_any _ _)

/-- The statements that are kept from some replica that is up: reads, EXPLAIN ANALYZE of a SELECT,
and everything behind the comment that asks for no load balancing. -/
def NotReplicated (env : Setup) (sql : String) (node : Node) : Prop :=
  hasNoLoadBalance sql = true ∨ RoutedRead env.toPoolConfig node ∨ ExplainAnalyze node

/-- Some node that is up is not in the map. -/
def LeavesOut (env : Setup) (map : NodeMap) : Prop :=
  ∃ i, i < env.numBackends ∧ env.isUp i = true ∧ map i = false

section

variable {env : Setup} {P : Child → Event → Prop} {c : Child} {lk : Lookups} {qc : QcId}
  {s : Session} {sql : String} {node : Node}

theorem explained_leavesOut (hrep : env.replicationMode = true)
    (h : LeavesOut env (nodesToSend env lk s qc sql node)) :
    Explained (NotReplicated env) (LeavesOut env) s qc sql node := by
  obtain ⟨i, hi, hup, hmap⟩ := h
  cases hnlb : hasNoLoadBalance sql with
  | true => exact Or.inl (Or.inl hnlb)
  | false =>
    rcases nodesToSend_partial hrep hnlb hi hup hmap with hread | hexplain |
      ⟨name, msg, hinherits, hfound, hne, heq⟩
    · exact Or.inl (Or.inr (Or.inl hread))
    · exact Or.inl (Or.inr (Or.inr hexplain))
    · rw [heq] at hmap
      exact Or.inr ⟨name, msg, hinherits, hfound, hne, i, hi, hup, hmap⟩

end

/-- A replica is left out of a statement, from a state of a run. -/
def RoutedPartly (env : Setup) (c : Child) (sql : String) (node : Node) : Prop :=
  Reachable env Transition.Any c ∧ LeavesOut env
    ((poolWhereToSend env Answers.quiet.lookups 7 sql node c.session).contexts 7).whereToSend

/-- `SELECT 1` prepared as `s` on the replica 1. -/
def preparedOnReplica : Child := after .replicaPair prepareOnStandby

/-- `EXPLAIN ANALYZE SELECT nextval(..)`. -/
def explainNextval : Node := .explainStmt selectNextval [.defElem "analyze" .null]

end Child

end PgPool
