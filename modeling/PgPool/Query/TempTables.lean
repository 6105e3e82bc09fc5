import PgPool.Query.RelCache
import PgPool.Query.Routing

/-!
# Temporary tables

`is_temp_table` answers from a relation cache that is local to the session.  In the history of a session
the temporary tables of the primary change, time passes, and SELECTs are routed.
-/

namespace PgPool

open CString Walk

/-! ## The source -/

/-- The queries of `is_temp_table`. -/
inductive TempQuery where
  | hasRelisTemp
  | isTemp83
  | isTemp84
  deriving DecidableEq

/-- The count that the real master answers to a query for a relation, unless the query fails. -/
abbrev CatalogAnswers := TempQuery → String → Option Nat

/-- `int_register_func`. -/
def intRegisterFunc (count : Nat) : Option Nat := if count = 0 then none else some count

def registered (answers : CatalogAnswers) (query : TempQuery) (rel : String) : Option (Option Nat) :=
  (answers query rel).map intRegisterFunc

/-- The static variables of `is_temp_table`; `query` is the one that the second cache has been created
with. -/
structure TempCaches where
  hasrelistempCache : RelCache Nat
  query : Option TempQuery
  relcache : RelCache Nat

def ownRelname : Node → List String
  | .rangeVar relname _ => [relname]
  | _ => []

/-- The relations that `temp_table_walker` comes to. -/
def relnames (node : Node) : List String :=
  ownRelname node ++ node.rawChildren.attach.flatMap fun c => relnames c.1
termination_by sizeOf node
decreasing_by exact sizeOf_children (rawChildren_subset _ c.2)

section

variable (client : RelClient) (now : Nat) (answers : CatalogAnswers)

/-- The query that the version of the backend calls for, or the one that has been chosen. -/
def TempCaches.tempQuery (w : TempCaches) : TempQuery :=
  let hasrelistemp :=
    (w.hasrelistempCache.poolSearchRelcache client now (registered answers .hasRelisTemp) "pg_class").1
  w.query.getD (if hasrelistemp.isSome then .isTemp84 else .isTemp83)

/-- `is_temp_table`. -/
def isTempTable (w : TempCaches) (tableName : String) : Bool × TempCaches :=
  let hasrelistemp :=
    w.hasrelistempCache.poolSearchRelcache client now (registered answers .hasRelisTemp) "pg_class"
  let query := w.tempQuery client now answers
  let result := w.relcache.poolSearchRelcache client now (registered answers query) tableName
  (result.1.isSome, ⟨hasrelistemp.2, some query, result.2⟩)

/-- The tables that are found among some relations, one look-up after the other. -/
def tempTables : List String → TempCaches → List String × TempCaches
  | [], w => ([], w)
  | name :: names, w =>
    let first := isTempTable client now answers w name
    let rest := tempTables names first.2
    (if first.1 then name :: rest.1 else rest.1, rest.2)

end

/-! ## Histories -/

/-- A SELECT that is routed in master/slave mode, with the answers of the catalog at the time. -/
structure RoutedSelect where
  env : Setup
  masterSlave : env.masterSlaveMode = true
  lk : Lookups
  session : Session
  qc : QcId
  query : String
  stmt : SelectStmt Node
  answers : CatalogAnswers

namespace RoutedSelect

variable (r : RoutedSelect)

def node : Node := .selectStmt r.stmt

/-- `pool_has_temp_table` is called: no earlier test has sent the SELECT to the primary. -/
def asks : Bool :=
  !hasNoLoadBalance r.query && sendToWhere r.node == .either &&
    canLoadBalance r.env r.session r.query r.node && transactionAllows r.env r.lk r.session &&
    !(r.env.masterSlaveSubMode == "stream" && r.env.delayThreshold != 0 &&
      decide (r.env.delayThreshold < r.lk.standbyDelay r.session.loadBalanceNodeId)) &&
    !poolHasFunctionCall r.env.toPoolConfig r.node &&
    !poolHasSystemCatalog r.lk.isSystemCatalog r.node

/-- The nodes it is sent to, given the caches. -/
def nodes (client : RelClient) (now : Nat) (w : TempCaches) : NodeMap :=
  nodesToSend r.env
    { r.lk with isTempTable := fun name =>
        (tempTables client now r.answers (relnames r.node) w).1.contains name }
    r.session r.qc r.query r.node

end RoutedSelect

/-- A session: its temporary tables on the primary, the caches of the child, and the time. -/
structure TempWorld where
  tables : List String
  caches : TempCaches
  now : Nat

/-- `tables`: by a CREATE, a DROP, an ABORT or another command these are the temporary tables now. -/
inductive TempEvent where
  | wait (seconds : Nat)
  | tables (names : List String)
  | select (r : RoutedSelect)

namespace TempWorld

variable (client : RelClient)

def step (w : TempWorld) : TempEvent → TempWorld
  | .wait seconds => { w with now := w.now + seconds }
  | .tables names => { w with tables := names }
  | .select r =>
    if r.asks then { w with caches := (tempTables client w.now r.answers (relnames r.node) w.caches).2 }
    else w

def run (w : TempWorld) (events : List TempEvent) : TempWorld := events.foldl (step client) w

/-- A SELECT that has a temporary table somewhere is sent to the primary. -/
def ReadsOnPrimary (w : TempWorld) : TempEvent → Prop
  | .select r =>
    (∃ table ∈ w.tables, ∃ aliasClause, Within Node.children r.node (.rangeVar table aliasClause)) →
      r.nodes client w.now w.caches = NodeMap.clear.set r.env.primary
  | _ => True

/-- The session begins: no entry of the cache is its own. -/
structure Begins (w : TempWorld) : Prop where
  sessionLocal : w.caches.relcache.cacheIsSessionLocal = true
  entries : ∀ e ∈ w.caches.relcache.entries, e.sessionId ≠ client.localSessionId

/-! ## What the steps have to be -/

/-- No live entry of the session says that a relation of this name, but for case and double quotes, is not
a temporary table. -/
def NotDenied (now : Nat) (cache : RelCache Nat) (name : String) : Prop :=
  ∀ e ∈ cache.entries, e.isFor true client (eliminateQuotes name) = true → e.isExpired now = false →
    e.data.isSome = true

/-- The walk comes to all temporary tables, their names differ from those of other relations not only in
case and double quotes, and the node that is asked counts them. -/
structure Answerable (w : TempWorld) (r : RoutedSelect) : Prop where
  reached : ∀ table ∈ w.tables, (∃ aliasClause, Within Node.children r.node (.rangeVar table aliasClause)) →
    table ∈ relnames r.node
  apart : ∀ name ∈ relnames r.node, ∀ table ∈ w.tables,
    caseEq (eliminateQuotes name) (eliminateQuotes table) = true → name = table
  answered : ∀ table ∈ relnames r.node, table ∈ w.tables → ∃ count,
    r.answers (w.caches.tempQuery client w.now r.answers) (eliminateQuotes table) = some count ∧ count ≠ 0

/-- Where a table becomes a temporary one the cache does not deny it; where the caches are asked, the
SELECT can be answered. -/
def Meets (w : TempWorld) : TempEvent → Prop
  | .wait _ => True
  | .tables names => ∀ table ∈ names, table ∉ w.tables → NotDenied client w.now w.caches.relcache table
  | .select r => r.asks = true → Answerable client w r

def MeetsAll : TempWorld → List TempEvent → Prop
  | _, [] => True
  | w, e :: events => Meets client w e ∧ MeetsAll (w.step client e) events

/-! ## Looking tables up -/

/-- None of the temporary tables is denied. -/
structure Sound (now : Nat) (tables : List String) (caches : TempCaches) : Prop where
  sessionLocal : caches.relcache.cacheIsSessionLocal = true
  notDenied : ∀ table ∈ tables, NotDenied client now caches.relcache table

end TempWorld

open TempWorld

section

variable {client : RelClient} {now : Nat} {answers : CatalogAnswers} {w : TempCaches} {tables : List String}
  {name : String}

theorem registered_eq_some {query : TempQuery} {rel : String} {count : Nat}
    (h : answers query rel = some count) (hpos : count ≠ 0) : registered answers query rel = some (some count) := by
  unfold registered intRegisterFunc
  rw [h, Option.map_some, if_neg hpos]

@[simp] theorem tempQuery_isTempTable (now' : Nat) :
    (isTempTable client now answers w name).2.tempQuery client now' answers =
      w.tempQuery client now answers := rfl

/-- A look-up of a relation that is answered. -/
theorem sound_isTempTable (h : Sound client now tables w)
    (hapart : ∀ table ∈ tables, caseEq (eliminateQuotes name) (eliminateQuotes table) = true → name = table)
    (hanswered : name ∈ tables →
      ∃ count, answers (w.tempQuery client now answers) (eliminateQuotes name) = some count ∧ count ≠ 0) :
    Sound client now tables (isTempTable client now answers w name).2 := by
  refine ⟨(RelCache.poolSearchRelcache_local name).trans h.sessionLocal, fun table htable => ?_⟩
  refine RelCache.forall_poolSearchRelcache (h.notDenied table htable) (fun e n he => he) ?_
  intro data hask hfor _
  have hname : name = table := by
    refine hapart table htable ?_
    simp only [RelEntry.isFor, Bool.and_eq_true] at hfor
    exact hfor.2.2
  subst hname
  obtain ⟨count, hcount, hpos⟩ := hanswered htable
  rw [registered_eq_some hcount hpos, Option.some.injEq] at hask
  rw [← hask]
  rfl

theorem isTempTable_of_sound (h : Sound client now tables w) (htable : name ∈ tables)
    (hanswered : ∃ count, answers (w.tempQuery client now answers) (eliminateQuotes name) = some count ∧
      count ≠ 0) : (isTempTable client now answers w name).1 = true := by
  obtain ⟨count, hcount, hpos⟩ := hanswered
  refine RelCache.isSome_poolSearchRelcache ?_ ⟨count, registered_eq_some hcount hpos⟩
  rw [h.sessionLocal]
  exact h.notDenied name htable

/-- All look-ups of a SELECT. -/
theorem sound_tempTables {names : List String} (h : Sound client now tables w)
    (hapart : ∀ name ∈ names, ∀ table ∈ tables,
      caseEq (eliminateQuotes name) (eliminateQuotes table) = true → name = table)
    (hanswered : ∀ table ∈ names, table ∈ tables →
      ∃ count, answers (w.tempQuery client now answers) (eliminateQuotes table) = some count ∧ count ≠ 0) :
    Sound client now tables (tempTables client now answers names w).2 ∧
      ∀ table ∈ names, table ∈ tables → table ∈ (tempTables client now answers names w).1 := by
  induction names generalizing w with
  | nil => exact ⟨h, nofun⟩
  | cons name names ih =>
    rw [List.forall_mem_cons] at hapart hanswered
    have hfirst := sound_isTempTable h hapart.1 hanswered.1
    obtain ⟨hrest, hfound⟩ := ih hfirst hapart.2 (by simpa using hanswered.2)
    refine ⟨hrest, ?_⟩
    rw [List.forall_mem_cons]
    constructor
    · intro htable
      have htemp := isTempTable_of_sound h htable (hanswered.1 htable)
      simp only [tempTables, htemp, if_true]
      exact List.mem_cons_self
    · intro table hmem htable
      have hin := hfound table hmem htable
      simp only [tempTables]
      split
      · exact List.mem_cons_of_mem _ hin
      · exact hin

end

/-! ## Routing -/

theorem mem_ownRelname {node : Node} {name : String} :
    name ∈ ownRelname node ↔ ∃ aliasClause, node = .rangeVar name aliasClause := by
  cases node <;> simp [ownRelname, eq_comm]

theorem relnames_eq (node : Node) :
    relnames node = ownRelname node ++ node.rawChildren.flatMap relnames := by
  rw [relnames]
  simp

theorem mem_relnames {node : Node} {name : String} :
    name ∈ relnames node ↔ ∃ aliasClause, Within Node.rawChildren node (.rangeVar name aliasClause) := by
  induction hn : sizeOf node using Nat.strongRecOn generalizing node with
  | ind n ih =>
    have hchild : ∀ c ∈ node.rawChildren, (name ∈ relnames c ↔
        ∃ aliasClause, Within Node.rawChildren c (.rangeVar name aliasClause)) := fun c hc =>
      ih (sizeOf c) (hn ▸ sizeOf_children (rawChildren_subset node hc)) rfl
    rw [relnames_eq, List.mem_append, List.mem_flatMap]
    constructor
    · rintro (hself | ⟨c, hc, hin⟩)
      · obtain ⟨aliasClause, rfl⟩ := mem_ownRelname.mp hself
        exact ⟨aliasClause, Within.self _⟩
      · obtain ⟨aliasClause, hwithin⟩ := (hchild c hc).mp hin
        exact ⟨aliasClause, Within.below hc hwithin⟩
    · intro ⟨aliasClause, hwithin⟩
      obtain rfl | ⟨c, hc, hrest⟩ := hwithin.cases_head
      · exact .inl (mem_ownRelname.mpr ⟨aliasClause, rfl⟩)
      · exact .inr ⟨c, hc, (hchild c hc).mpr ⟨aliasClause, hrest⟩⟩

namespace RoutedSelect

variable {r : RoutedSelect} {client : RelClient} {now : Nat} {w : TempCaches}

theorem hasTempTable_of_found {table : String} (hvisited : table ∈ relnames r.node)
    (hfound : table ∈ (tempTables client now r.answers (relnames r.node) w).1) :
    poolHasTempTable (fun name => (tempTables client now r.answers (relnames r.node) w).1.contains name)
      r.node = true := by
  obtain ⟨aliasClause, hwithin⟩ := mem_relnames.mp hvisited
  exact (rawWalkSelect_iff rfl).mpr ⟨_, hwithin, by simpa [relationWalker] using hfound⟩

theorem sendToWhere_select (stmt : SelectStmt Node) :
    sendToWhere (.selectStmt stmt) = .primary ∨ sendToWhere (.selectStmt stmt) = .either := by
  rw [sendToWhere_selectStmt]
  split
  · exact .inl rfl
  · split
    · exact .inl rfl
    · split
      · exact .inl rfl
      · exact .inr rfl

/-- The standby is too far behind. -/
def Late : Prop :=
  r.env.masterSlaveSubMode = "stream" ∧ r.env.delayThreshold ≠ 0 ∧
    r.env.delayThreshold < r.lk.standbyDelay r.session.loadBalanceNodeId

theorem asks_of_tests (hcomment : hasNoLoadBalance r.query = false) (hdest : sendToWhere r.node = .either)
    (hcan : canLoadBalance r.env r.session r.query r.node = true)
    (hallows : transactionAllows r.env r.lk r.session = true) (hprompt : ¬ r.Late)
    (hcall : poolHasFunctionCall r.env.toPoolConfig r.node = false)
    (hcatalog : poolHasSystemCatalog r.lk.isSystemCatalog r.node = false) : r.asks = true := by
  unfold asks
  rw [hcomment, hdest, hcan, hallows, hcall, hcatalog]
  simpa [Late, or_assoc, imp_iff_not_or] using hprompt

/-- The tests of the load balancing branch, one after the other. -/
theorem eitherTarget_eq_primary {isTemp : String → Bool}
    (h : canLoadBalance r.env r.session r.query r.node = true → transactionAllows r.env r.lk r.session = true →
      ¬ r.Late → poolHasFunctionCall r.env.toPoolConfig r.node = false →
      poolHasSystemCatalog r.lk.isSystemCatalog r.node = false → poolHasTempTable isTemp r.node = true) :
    eitherTarget r.env { r.lk with isTempTable := isTemp } r.session r.query r.node = r.env.primary := by
  unfold eitherTarget
  by_cases hcan : canLoadBalance r.env r.session r.query r.node = true
  · rw [if_pos hcan]
    by_cases hallows : transactionAllows r.env r.lk r.session = true
    · refine (if_pos hallows).trans ?_
      unfold loadBalanceTarget
      split
      · rfl
      · next hprompt =>
        split
        · rfl
        · next hcall =>
          split
          · rfl
          · next hcatalog =>
            rw [Bool.not_eq_true] at hcall hcatalog
            exact if_pos (h hcan hallows hprompt hcall hcatalog)
    · exact if_neg hallows
  · exact if_neg hcan

/-- A SELECT goes to the primary unless `pool_has_temp_table` is asked and finds nothing. -/
theorem nodes_eq_primary (h : r.asks = true →
      poolHasTempTable (fun name => (tempTables client now r.answers (relnames r.node) w).1.contains name)
        r.node = true) : r.nodes client now w = NodeMap.clear.set r.env.primary := by
  unfold nodes nodesToSend
  by_cases hcomment : hasNoLoadBalance r.query = true
  · rw [if_pos hcomment, if_pos r.masterSlave]
  · rw [if_neg hcomment]
    have hmode : ∀ lk,
        inheritNodes r.env r.session r.qc r.node (modeNodes r.env lk r.session r.query r.node) =
          masterSlaveNodes r.env lk r.session r.query r.node := by
      intro lk
      unfold modeNodes
      rw [r.env.rawMode_of_masterSlave r.masterSlave, if_neg Bool.false_ne_true, if_pos r.masterSlave]
      rfl
    rw [hmode, masterSlaveNodes]
    obtain hprimary | heither := sendToWhere_select r.stmt
    · rw [node, hprimary]
    · have hdest : sendToWhere r.node = .either := heither
      rw [hdest]
      refine congrArg NodeMap.clear.set (eitherTarget_eq_primary ?_)
      intro hcan hallows hprompt hcall hcatalog
      exact h (asks_of_tests (Bool.eq_false_iff.mpr hcomment) hdest hcan hallows hprompt hcall hcatalog)

end RoutedSelect

/-! ## Runs -/

namespace TempWorld

variable {client : RelClient} {w : TempWorld} {e : TempEvent} {events : List TempEvent}

/-- A live entry was live before. -/
theorem isExpired_of_le {δ : Type} {entry : RelEntry δ} {now now' : Nat} (hle : now ≤ now')
    (h : entry.isExpired now' = false) : entry.isExpired now = false := by
  unfold RelEntry.isExpired at h ⊢
  rw [Bool.and_eq_false_iff, decide_eq_false_iff_not, decide_eq_false_iff_not] at h ⊢
  omega

theorem sound_select {r : RoutedSelect} (hsound : Sound client w.now w.tables w.caches)
    (hanswerable : Answerable client w r) :
    Sound client w.now w.tables (tempTables client w.now r.answers (relnames r.node) w.caches).2 ∧
      ∀ table ∈ relnames r.node, table ∈ w.tables →
        table ∈ (tempTables client w.now r.answers (relnames r.node) w.caches).1 :=
  sound_tempTables hsound hanswerable.apart hanswerable.answered

theorem step_asked {r : RoutedSelect} (h : r.asks = true) : w.step client (.select r) =
    { w with caches := (tempTables client w.now r.answers (relnames r.node) w.caches).2 } := if_pos h

theorem sound_step (hsound : Sound client w.now w.tables w.caches) (h : Meets client w e) :
    Sound client (w.step client e).now (w.step client e).tables (w.step client e).caches := by
  cases e with
  | wait seconds =>
    refine ⟨hsound.sessionLocal, fun table htable entry hentry hfor hlive => ?_⟩
    exact hsound.notDenied table htable entry hentry hfor (isExpired_of_le (Nat.le_add_right _ _) hlive)
  | tables names =>
    refine ⟨hsound.sessionLocal, fun table htable => ?_⟩
    by_cases hold : table ∈ w.tables
    · exact hsound.notDenied table hold
    · exact h table htable hold
  | select r =>
    by_cases hasks : r.asks = true
    · rw [step_asked hasks]
      exact (sound_select hsound (h hasks)).1
    · have hstep : w.step client (.select r) = w := if_neg hasks
      rw [hstep]
      exact hsound

theorem readsOnPrimary_of_sound (hsound : Sound client w.now w.tables w.caches) (h : Meets client w e) :
    ReadsOnPrimary client w e := by
  cases e with
  | wait seconds => exact trivial
  | tables names => exact trivial
  | select r =>
    intro ⟨table, htable, hwithin⟩
    refine RoutedSelect.nodes_eq_primary fun hasks => ?_
    have hanswerable := h hasks
    have hvisited := hanswerable.reached table htable hwithin
    exact RoutedSelect.hasTempTable_of_found hvisited
      ((sound_select hsound hanswerable).2 table hvisited htable)

theorem readsOnPrimary_of_meetsAll (hsound : Sound client w.now w.tables w.caches)
    (h : MeetsAll client w events) : ∀ before e after, events = before ++ e :: after →
      ReadsOnPrimary client (w.run client before) e := by
  induction events generalizing w with
  | nil =>
    intro before e after heq
    exact absurd heq (by simp)
  | cons first events ih =>
    intro before e after heq
    cases before with
    | nil =>
      cases heq
      exact readsOnPrimary_of_sound hsound h.1
    | cons _ before =>
      cases heq
      exact ih (sound_step hsound h.1) h.2 before e after rfl

/-- A session whose SELECTs are balanced to the standby. -/
def balanced : Session :=
  { SessionContext.zeroed with
    loadBalanceNodeId := 1
    contexts := fun _ => .zeroed
    nextContext := 0
    destroyed := fun _ => 0
    nextMessage := 0
    conn := .opened .v3
    allowCloseTransaction := false }

/-- `SELECT FROM` a table, while the catalog has some temporary tables. -/
def selectFrom (table : String) (catalog : List String) : RoutedSelect where
  env := .standbyPair
  masterSlave := rfl
  lk := ⟨fun _ => false, fun _ => false, .readCommitted, fun _ => 0⟩
  session := balanced
  qc := 0
  query := "SELECT FROM " ++ table
  stmt := { SelectStmt.ofTargets [] with fromClause := [.rangeVar table .null] }
  answers := fun query rel => some (if query = .hasRelisTemp ∨ rel ∈ catalog then 1 else 0)

/-- The first session of a child. -/
def firstClient : RelClient := ⟨1, "postgres", 0, Nat.one_pos⟩

/-- It has no temporary tables, and the caches are new. -/
def fresh : TempWorld :=
  ⟨[], ⟨poolCreateRelcache Nat 128 nofun false, none, poolCreateRelcache Nat 128 nofun true⟩, 0⟩

theorem begins_fresh : Begins firstClient fresh := ⟨rfl, by decide +kernel⟩

theorem relnames_selectFrom (table : String) (catalog : List String) :
    relnames (selectFrom table catalog).node = [table] := by
  have hnull : relnames .null = [] := relnames_eq _
  have htable : relnames (.rangeVar table .null) = [table] := by
    rw [relnames_eq]
    simp [ownRelname, Node.rawChildren, Node.children, hnull]
  rw [relnames_eq]
  simp [RoutedSelect.node, selectFrom, SelectStmt.ofTargets, ownRelname, Node.rawChildren, Node.children,
    SelectStmt.parts, hnull, htable]

theorem within_selectFrom (table : String) (catalog : List String) :
    Within Node.children (selectFrom table catalog).node (.rangeVar table .null) :=
  Within.below
    (by simp [RoutedSelect.node, selectFrom, SelectStmt.ofTargets, Node.children, SelectStmt.parts])
    (Within.self _)

/-- The caches once a table has been looked up that was not a temporary one. -/
def lookedUp (table : String) : TempCaches :=
  (tempTables firstClient 0 (selectFrom table []).answers [table] fresh.caches).2

theorem step_selectFrom {table : String} (h : (selectFrom table []).asks = true) :
    fresh.step firstClient (.select (selectFrom table [])) = { fresh with caches := lookedUp table } := by
  rw [step_asked h, relnames_selectFrom]
  rfl

theorem answerable_selectFrom {table : String} {catalog : List String} (h : ∀ name ∈ w.tables, name = table)
    (hcatalog : w.tables ≠ [] → eliminateQuotes table ∈ catalog) :
    Answerable client w (selectFrom table catalog) := by
  refine ⟨fun name hname _ => ?_, fun name hvisited name' hname _ => ?_, fun name _ hname => ?_⟩
  · rw [relnames_selectFrom, h name hname]
    exact List.mem_singleton_self _
  · rw [relnames_selectFrom, List.mem_singleton] at hvisited
    rw [hvisited, h name' hname]
  · refine ⟨1, ?_, Nat.one_ne_zero⟩
    rw [h name hname]
    exact congrArg some (if_pos (.inr (hcatalog (List.ne_nil_of_mem hname))))

end TempWorld

end PgPool
