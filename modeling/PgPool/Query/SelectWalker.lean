import PgPool.Config
import PgPool.Lib.Walk
import PgPool.Parser.Nodes

/-!
# Searching a SELECT

The walkers of `pool_select_walker.c`.  Each looks for one kind of node below a `SelectStmt`, along
the sub-nodes that `raw_expression_tree_walker` visits.  A walker that has found its node sets a
flag and does not descend further there, so the flag tells whether such a node is visited.
-/

namespace PgPool

open Walk

mutual

/-- Does `raw_expression_tree_walker`, started with a walker that tests `p`, meet a node with `p`,
the given node included? -/
def rawExpressionTreeWalker (p : Node → Bool) : Node → Bool
  | .null => p .null
  | .plain tag word => p (.plain tag word)
  | .value v => p (.value v)
  | .list items => p (.list items) || rawWalkList p items
  | .aConst val => p (.aConst val)
  | .rangeVar relname aliasClause =>
      p (.rangeVar relname aliasClause) || rawExpressionTreeWalker p aliasClause
  | .subLink testexpr subselect =>
      p (.subLink testexpr subselect) || rawExpressionTreeWalker p testexpr ||
        rawExpressionTreeWalker p subselect
  | .caseExpr arg args defresult =>
      p (.caseExpr arg args defresult) || rawExpressionTreeWalker p arg || rawWalkList p args ||
        rawExpressionTreeWalker p defresult
  | .caseWhen expr result =>
      p (.caseWhen expr result) || rawExpressionTreeWalker p expr ||
        rawExpressionTreeWalker p result
  | .rowExpr args => p (.rowExpr args) || rawWalkList p args
  | .coalesceExpr args => p (.coalesceExpr args) || rawWalkList p args
  | .minMaxExpr args => p (.minMaxExpr args) || rawWalkList p args
  | .xmlExpr namedArgs args =>
      p (.xmlExpr namedArgs args) || rawWalkList p namedArgs || rawWalkList p args
  | .nullTest arg => p (.nullTest arg) || rawExpressionTreeWalker p arg
  | .booleanTest arg => p (.booleanTest arg) || rawExpressionTreeWalker p arg
  | .joinExpr larg rarg quals aliasClause =>
      p (.joinExpr larg rarg quals aliasClause) || rawExpressionTreeWalker p larg ||
        rawExpressionTreeWalker p rarg || rawExpressionTreeWalker p quals ||
        rawExpressionTreeWalker p aliasClause
  | .intoClause rel => p (.intoClause rel) || rawExpressionTreeWalker p rel
  | .aExpr lexpr rexpr =>
      p (.aExpr lexpr rexpr) || rawExpressionTreeWalker p lexpr || rawExpressionTreeWalker p rexpr
  | .funcCall funcname args aggOrder overClause =>
      p (.funcCall funcname args aggOrder overClause) || rawWalkList p args ||
        rawExpressionTreeWalker p overClause
  | .namedArgExpr arg => p (.namedArgExpr arg)
  | .aIndices lidx uidx =>
      p (.aIndices lidx uidx) || rawExpressionTreeWalker p lidx || rawExpressionTreeWalker p uidx
  | .aIndirection arg indirection =>
      p (.aIndirection arg indirection) || rawExpressionTreeWalker p arg ||
        rawWalkList p indirection
  | .aArrayExpr elements => p (.aArrayExpr elements) || rawWalkList p elements
  | .resTarget indirection val =>
      p (.resTarget indirection val) || rawWalkList p indirection || rawExpressionTreeWalker p val
  | .typeCast arg ty =>
      p (.typeCast arg ty) || rawExpressionTreeWalker p arg || rawExpressionTreeWalker p ty
  | .sortBy node => p (.sortBy node) || rawExpressionTreeWalker p node
  | .windowDef partitionClause orderClause startOffset endOffset =>
      p (.windowDef partitionClause orderClause startOffset endOffset) ||
        rawWalkList p partitionClause || rawWalkList p orderClause
  | .rangeSubselect subquery aliasClause =>
      p (.rangeSubselect subquery aliasClause) || rawExpressionTreeWalker p subquery ||
        rawExpressionTreeWalker p aliasClause
  | .rangeFunction funccallnode aliasClause coldeflist =>
      p (.rangeFunction funccallnode aliasClause coldeflist) ||
        rawExpressionTreeWalker p funccallnode || rawExpressionTreeWalker p aliasClause
  | .typeName typmods arrayBounds =>
      p (.typeName typmods arrayBounds) || rawWalkList p typmods || rawWalkList p arrayBounds
  | .columnDef ty rawDefault =>
      p (.columnDef ty rawDefault) || rawExpressionTreeWalker p ty ||
        rawExpressionTreeWalker p rawDefault
  | .defElem defname arg => p (.defElem defname arg)
  | .lockingClause lockedRels => p (.lockingClause lockedRels) || rawWalkList p lockedRels
  | .xmlSerialize expr ty =>
      p (.xmlSerialize expr ty) || rawExpressionTreeWalker p expr || rawExpressionTreeWalker p ty
  | .withClause ctes => p (.withClause ctes) || rawWalkList p ctes
  | .commonTableExpr ctequery =>
      p (.commonTableExpr ctequery) || rawExpressionTreeWalker p ctequery
  | .selectStmt stmt => p (.selectStmt stmt) || rawWalkSelect p stmt
  | .copyStmt relation query isFrom filename => p (.copyStmt relation query isFrom filename)
  | .explainStmt query options => p (.explainStmt query options)
  | .transactionStmt kind options => p (.transactionStmt kind options)
  | .variableSetStmt kind name args => p (.variableSetStmt kind name args)
  | .variableShowStmt name => p (.variableShowStmt name)
  | .discardStmt target => p (.discardStmt target)
  | .lockStmt mode => p (.lockStmt mode)
  | .indexStmt concurrent => p (.indexStmt concurrent)
  | .clusterStmt relation => p (.clusterStmt relation)
  | .reindexStmt kind doSystem => p (.reindexStmt kind doSystem)
  | .prepareStmt name query => p (.prepareStmt name query)
  | .executeStmt name into params => p (.executeStmt name into params)
  | .deallocateStmt name => p (.deallocateStmt name)

/-- The `T_List` case. -/
def rawWalkList (p : Node → Bool) : List Node → Bool
  | [] => false
  | node :: rest => rawExpressionTreeWalker p node || rawWalkList p rest

/-- The `T_SelectStmt` case. -/
def rawWalkSelect (p : Node → Bool) : SelectStmt Node → Bool
  | ⟨distinctClause, intoClause, targetList, fromClause, whereClause, groupClause, havingClause,
      windowClause, withClause, valuesLists, sortClause, limitOffset, limitCount, lockingClause,
      larg, rarg⟩ =>
      rawWalkList p distinctClause || rawExpressionTreeWalker p intoClause ||
        rawWalkList p targetList || rawWalkList p fromClause ||
        rawExpressionTreeWalker p whereClause || rawWalkList p groupClause ||
        rawExpressionTreeWalker p havingClause || rawWalkList p windowClause ||
        rawExpressionTreeWalker p withClause || rawWalkList p valuesLists ||
        rawWalkList p sortClause || rawExpressionTreeWalker p limitOffset ||
        rawExpressionTreeWalker p limitCount || rawWalkList p lockingClause ||
        rawExpressionTreeWalker p larg || rawExpressionTreeWalker p rarg

end

/-! ## What the walk meets -/

@[simp] theorem rawWalkList_eq (p : Node → Bool) (nodes : List Node) :
    rawWalkList p nodes = nodes.any (rawExpressionTreeWalker p) := by
  induction nodes with
  | nil => rfl
  | cons node rest ih => simp [rawWalkList, ih]

@[simp] theorem rawWalkSelect_eq (p : Node → Bool) (s : SelectStmt Node) :
    rawWalkSelect p s = s.parts.any (rawExpressionTreeWalker p) := by
  cases s
  simp [rawWalkSelect, SelectStmt.parts, Bool.or_assoc]

theorem rawExpressionTreeWalker_eq (p : Node → Bool) (node : Node) :
    rawExpressionTreeWalker p node =
      (p node || node.rawChildren.any (rawExpressionTreeWalker p)) := by
  cases node <;>
    simp [rawExpressionTreeWalker, Node.rawChildren, Node.children, Bool.or_assoc]

theorem rawChildren_subset (node : Node) : node.rawChildren ⊆ node.children := by
  intro c hc
  cases node <;> grind [Node.rawChildren, Node.children]

theorem SelectStmt.sizeOf_parts {s : SelectStmt Node} {c : Node} (h : c ∈ s.parts) :
    sizeOf c < sizeOf s := by
  have hmem : ∀ {l : List Node}, c ∈ l → sizeOf c < sizeOf l := List.sizeOf_lt_of_mem
  cases s
  simp only [SelectStmt.parts, List.mem_append, List.mem_cons, List.not_mem_nil, or_false,
    or_assoc] at h
  simp only [SelectStmt.mk.sizeOf_spec]
  rcases h with h | h | h | h | h | h | h | h | h | h | h | h | h | h | h | h
  all_goals first | (have hlt := hmem h; omega) | (subst h; omega)

theorem sizeOf_children {node c : Node} (h : c ∈ node.children) : sizeOf c < sizeOf node := by
  cases node <;> simp [Node.children] at h ⊢ <;>
    grind [→ List.sizeOf_lt_of_mem, → SelectStmt.sizeOf_parts]

/-- The walk meets a node with `p` exactly if one lies within, along the visited sub-nodes. -/
theorem rawExpressionTreeWalker_iff {p : Node → Bool} {node : Node} :
    rawExpressionTreeWalker p node = true ↔ ∃ m, Within Node.rawChildren node m ∧ p m = true :=
  any_eq_true_iff sizeOf (fun n _ hc => sizeOf_children (rawChildren_subset n hc))
    (rawExpressionTreeWalker_eq p) node

/-- So does the walk below a `SelectStmt` of a walker that does not look at the statement itself. -/
theorem rawWalkSelect_iff {p : Node → Bool} {s : SelectStmt Node} (hp : p (.selectStmt s) = false) :
    rawWalkSelect p s = true ↔ ∃ m, Within Node.rawChildren (.selectStmt s) m ∧ p m = true := by
  rw [← rawExpressionTreeWalker_iff, rawExpressionTreeWalker_eq, hp, Bool.false_or,
    rawWalkSelect_eq]
  rfl


/-- The name of a `FuncCall` that `function_call_walker` looks up: the second component of a
qualified name. -/
def funcCallName : List String → Option String
  | [] => none
  | [fname] => some fname
  | _ :: fname :: _ => some fname

/-- `function_call_walker`: a call of a function that the lists take for a writing one.  With a
white list every function outside it writes; without one those in the black list do. -/
def functionCallWalker (cfg : PoolConfig) : Node → Bool
  | .funcCall funcname _ _ _ =>
      match funcCallName funcname with
      | none => false
      | some fname =>
          if 0 < cfg.numWhiteFunctionList then !cfg.patternCompare fname .white
          else if 0 < cfg.numBlackFunctionList then cfg.patternCompare fname .black
          else false
  | _ => false

/-- `system_catalog_walker` and `temp_table_walker`: a relation with the given property. -/
def relationWalker (isWanted : String → Bool) : Node → Bool
  | .rangeVar relname _ => isWanted relname
  | _ => false

/-- `pool_has_function_call`. -/
def poolHasFunctionCall (cfg : PoolConfig) : Node → Bool
  | .selectStmt stmt => rawWalkSelect (functionCallWalker cfg) stmt
  | _ => false

/-- `pool_has_system_catalog`; the answer for one table comes from the backend's catalog. -/
def poolHasSystemCatalog (isSystemCatalog : String → Bool) : Node → Bool
  | .selectStmt stmt => rawWalkSelect (relationWalker isSystemCatalog) stmt
  | _ => false

/-- `pool_has_temp_table`; the answer for one table comes from the backend's catalog. -/
def poolHasTempTable (isTempTable : String → Bool) : Node → Bool
  | .selectStmt stmt => rawWalkSelect (relationWalker isTempTable) stmt
  | _ => false

/-- `pool_has_function_call` finds the writing calls at the visited positions of a `SELECT`. -/
theorem poolHasFunctionCall_iff {cfg : PoolConfig} {node : Node} :
    poolHasFunctionCall cfg node = true ↔
      node.tag = .selectStmt ∧
        ∃ m, Within Node.rawChildren node m ∧ functionCallWalker cfg m = true := by
  constructor
  · intro h
    cases node with
    | selectStmt s => exact ⟨rfl, (rawWalkSelect_iff rfl).1 h⟩
    | _ => cases h
  · intro ⟨htag, h⟩
    obtain ⟨s, rfl⟩ := Node.tag_selectStmt.1 htag
    exact (rawWalkSelect_iff rfl).2 h

end PgPool
