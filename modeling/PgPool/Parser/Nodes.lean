import Mathlib.Logic.Basic

/-!
# Raw parse trees

What `raw_parser` returns for one statement: the node types of `parser/parsenodes.h` and
`parser/primnodes.h` with the fields that the query classification reads.  A `NULL` pointer is
`Node.null`.  `Node.children` lists every sub-node of a node; `Node.rawChildren` lists those that
`raw_expression_tree_walker` (`pool_timestamp.c`) hands to its walker, which is fewer.
-/

namespace PgPool

/-- `NodeTag` of `parser/nodes.h`: the tags of the nodes that occur in raw parse trees. -/
inductive NodeTag where
  | invalid | alias | rangeVar | namedArgExpr | subLink | caseExpr | caseWhen | rowExpr
  | coalesceExpr | minMaxExpr | xmlExpr | nullTest | booleanTest | setToDefault | currentOfExpr
  | joinExpr | intoClause | integer | float | string | bitString | null | list | plannedStmt
  | insertStmt | deleteStmt | updateStmt | selectStmt | alterTableStmt | alterTableCmd
  | alterDomainStmt | setOperationStmt | grantStmt | grantRoleStmt | alterDefaultPrivilegesStmt
  | closePortalStmt | clusterStmt | copyStmt | createStmt | defineStmt | dropStmt | truncateStmt
  | commentStmt | fetchStmt | indexStmt | createFunctionStmt | alterFunctionStmt | removeFuncStmt
  | doStmt | renameStmt | ruleStmt | notifyStmt | listenStmt | unlistenStmt | transactionStmt
  | viewStmt | loadStmt | createDomainStmt | createdbStmt | dropdbStmt | vacuumStmt | explainStmt
  | createSeqStmt | alterSeqStmt | variableSetStmt | variableShowStmt | discardStmt
  | createTrigStmt | dropPropertyStmt | createPLangStmt | dropPLangStmt | createRoleStmt
  | alterRoleStmt | dropRoleStmt | lockStmt | constraintsSetStmt | reindexStmt | checkPointStmt
  | createSchemaStmt | alterDatabaseStmt | alterDatabaseSetStmt | alterRoleSetStmt
  | createConversionStmt | createCastStmt | dropCastStmt | createOpClassStmt | createOpFamilyStmt
  | alterOpFamilyStmt | removeOpClassStmt | removeOpFamilyStmt | prepareStmt | executeStmt
  | deallocateStmt | declareCursorStmt | createTableSpaceStmt | dropTableSpaceStmt
  | alterObjectSchemaStmt | alterOwnerStmt | dropOwnedStmt | reassignOwnedStmt
  | compositeTypeStmt | createEnumStmt | alterTSDictionaryStmt | alterTSConfigurationStmt
  | createFdwStmt | alterFdwStmt | dropFdwStmt | createForeignServerStmt | alterForeignServerStmt
  | dropForeignServerStmt | createUserMappingStmt | alterUserMappingStmt | dropUserMappingStmt
  | alterTableSpaceOptionsStmt | aExpr | columnRef | paramRef | aConst | funcCall | aStar
  | aIndices | aIndirection | aArrayExpr | resTarget | typeCast | sortBy | windowDef
  | rangeSubselect | rangeFunction | typeName | columnDef | indexElem | constraint | defElem
  | privGrantee | funcWithArgs | accessPriv | createOpClassItem | inhRelation | functionParameter
  | lockingClause | xmlSerialize | withClause | commonTableExpr
  deriving DecidableEq, Repr

/-- The node types without sub-nodes or fields that the classification reads.  A node of another
type has a constructor of its own in `Node`. -/
def NodeTag.isPlain (t : NodeTag) : Bool :=
  !([.invalid, .rangeVar, .namedArgExpr, .subLink, .caseExpr, .caseWhen, .rowExpr, .coalesceExpr,
    .minMaxExpr, .xmlExpr, .nullTest, .booleanTest, .joinExpr, .intoClause, .integer, .float,
    .string, .bitString, .null, .list, .selectStmt, .clusterStmt, .copyStmt, .indexStmt,
    .transactionStmt, .explainStmt, .variableSetStmt, .variableShowStmt, .discardStmt, .lockStmt,
    .reindexStmt, .prepareStmt, .executeStmt, .deallocateStmt, .aExpr, .aConst, .funcCall,
    .aIndices, .aIndirection, .aArrayExpr, .resTarget, .typeCast, .sortBy, .windowDef,
    .rangeSubselect, .rangeFunction, .typeName, .columnDef, .defElem, .lockingClause,
    .xmlSerialize, .withClause, .commonTableExpr] : List NodeTag).contains t

abbrev PlainTag := { t : NodeTag // t.isPlain = true }

/-- `Value` of `parser/value.h`. -/
inductive Value where
  | integer (ival : Int)
  | float (str : String)
  | string (str : String)
  | bitString (str : String)
  | null
  deriving DecidableEq, Repr

inductive TransactionStmtKind where
  | begin | start | commit | rollback | savepoint | release | rollbackTo | prepare
  | commitPrepared | rollbackPrepared
  deriving DecidableEq, Repr

/-- The number the C compiler gives the enumerator. -/
def TransactionStmtKind.toNat : TransactionStmtKind → Nat
  | .begin => 0 | .start => 1 | .commit => 2 | .rollback => 3 | .savepoint => 4 | .release => 5
  | .rollbackTo => 6 | .prepare => 7 | .commitPrepared => 8 | .rollbackPrepared => 9

inductive VariableSetKind where
  | setValue | setDefault | setCurrent | setMulti | reset | resetAll
  deriving DecidableEq, Repr

def VariableSetKind.toNat : VariableSetKind → Nat
  | .setValue => 0 | .setDefault => 1 | .setCurrent => 2 | .setMulti => 3 | .reset => 4
  | .resetAll => 5

inductive DiscardMode where
  | all | plans | temp
  deriving DecidableEq, Repr

def DiscardMode.toNat : DiscardMode → Nat
  | .all => 0 | .plans => 1 | .temp => 2

/-- `OBJECT_DATABASE` of `ObjectType`. -/
def objectDatabase : Nat := 5

/-- The fields of `SelectStmt`, over the type of its sub-nodes.  `larg` and `rarg` are the arms of
a set operation. -/
structure SelectStmt (α : Type) where
  distinctClause : List α
  intoClause : α
  targetList : List α
  fromClause : List α
  whereClause : α
  groupClause : List α
  havingClause : α
  windowClause : List α
  withClause : α
  valuesLists : List α
  sortClause : List α
  limitOffset : α
  limitCount : α
  lockingClause : List α
  larg : α
  rarg : α

/-- A node of a raw parse tree.  `plain tag word` is a node of a type whose content is not read;
`word` is the machine word that follows the tag in memory, which `is_2pc_transaction_query` reads
whatever the node type is. -/
inductive Node where
  | null
  | plain (tag : PlainTag) (word : Nat)
  | value (v : Value)
  | list (items : List Node)
  | aConst (val : Value)
  | rangeVar (relname : String) (aliasClause : Node)
  | subLink (testexpr subselect : Node)
  | caseExpr (arg : Node) (args : List Node) (defresult : Node)
  | caseWhen (expr result : Node)
  | rowExpr (args : List Node)
  | coalesceExpr (args : List Node)
  | minMaxExpr (args : List Node)
  | xmlExpr (namedArgs args : List Node)
  | nullTest (arg : Node)
  | booleanTest (arg : Node)
  | joinExpr (larg rarg quals aliasClause : Node)
  | intoClause (rel : Node)
  | aExpr (lexpr rexpr : Node)
  | funcCall (funcname : List String) (args aggOrder : List Node) (overClause : Node)
  | namedArgExpr (arg : Node)
  | aIndices (lidx uidx : Node)
  | aIndirection (arg : Node) (indirection : List Node)
  | aArrayExpr (elements : List Node)
  | resTarget (indirection : List Node) (val : Node)
  | typeCast (arg typeName : Node)
  | sortBy (node : Node)
  | windowDef (partitionClause orderClause : List Node) (startOffset endOffset : Node)
  | rangeSubselect (subquery aliasClause : Node)
  | rangeFunction (funccallnode aliasClause : Node) (coldeflist : List Node)
  | typeName (typmods arrayBounds : List Node)
  | columnDef (typeName rawDefault : Node)
  | defElem (defname : String) (arg : Node)
  | lockingClause (lockedRels : List Node)
  | xmlSerialize (expr typeName : Node)
  | withClause (ctes : List Node)
  | commonTableExpr (ctequery : Node)
  | selectStmt (stmt : SelectStmt Node)
  | copyStmt (relation query : Node) (isFrom : Bool) (filename : Option String)
  | explainStmt (query : Node) (options : List Node)
  | transactionStmt (kind : TransactionStmtKind) (options : List Node)
  | variableSetStmt (kind : VariableSetKind) (name : Option String) (args : List Node)
  | variableShowStmt (name : String)
  | discardStmt (target : DiscardMode)
  | lockStmt (mode : Nat)
  | indexStmt (concurrent : Bool)
  | clusterStmt (relation : Node)
  | reindexStmt (kind : Nat) (doSystem : Bool)
  | prepareStmt (name : String) (query : Node)
  | executeStmt (name : String) (into : Node) (params : List Node)
  | deallocateStmt (name : Option String)

namespace Node

instance : Inhabited Node := ⟨.null⟩

def isNull : Node → Bool
  | .null => true
  | _ => false

/-- `nodeTag(node)`. -/
def tag : Node → NodeTag
  | .null => .invalid
  | .plain t _ => t.val
  | .value (.integer _) => .integer
  | .value (.float _) => .float
  | .value (.string _) => .string
  | .value (.bitString _) => .bitString
  | .value .null => .null
  | .list _ => .list
  | .aConst _ => .aConst
  | .rangeVar _ _ => .rangeVar
  | .subLink _ _ => .subLink
  | .caseExpr _ _ _ => .caseExpr
  | .caseWhen _ _ => .caseWhen
  | .rowExpr _ => .rowExpr
  | .coalesceExpr _ => .coalesceExpr
  | .minMaxExpr _ => .minMaxExpr
  | .xmlExpr _ _ => .xmlExpr
  | .nullTest _ => .nullTest
  | .booleanTest _ => .booleanTest
  | .joinExpr _ _ _ _ => .joinExpr
  | .intoClause _ => .intoClause
  | .aExpr _ _ => .aExpr
  | .funcCall _ _ _ _ => .funcCall
  | .namedArgExpr _ => .namedArgExpr
  | .aIndices _ _ => .aIndices
  | .aIndirection _ _ => .aIndirection
  | .aArrayExpr _ => .aArrayExpr
  | .resTarget _ _ => .resTarget
  | .typeCast _ _ => .typeCast
  | .sortBy _ => .sortBy
  | .windowDef _ _ _ _ => .windowDef
  | .rangeSubselect _ _ => .rangeSubselect
  | .rangeFunction _ _ _ => .rangeFunction
  | .typeName _ _ => .typeName
  | .columnDef _ _ => .columnDef
  | .defElem _ _ => .defElem
  | .lockingClause _ => .lockingClause
  | .xmlSerialize _ _ => .xmlSerialize
  | .withClause _ => .withClause
  | .commonTableExpr _ => .commonTableExpr
  | .selectStmt _ => .selectStmt
  | .copyStmt _ _ _ _ => .copyStmt
  | .explainStmt _ _ => .explainStmt
  | .transactionStmt _ _ => .transactionStmt
  | .variableSetStmt _ _ _ => .variableSetStmt
  | .variableShowStmt _ => .variableShowStmt
  | .discardStmt _ => .discardStmt
  | .lockStmt _ => .lockStmt
  | .indexStmt _ => .indexStmt
  | .clusterStmt _ => .clusterStmt
  | .reindexStmt _ _ => .reindexStmt
  | .prepareStmt _ _ => .prepareStmt
  | .executeStmt _ _ _ => .executeStmt
  | .deallocateStmt _ => .deallocateStmt

theorem tag_plain {t : PlainTag} {word : Nat} {u : NodeTag} (hu : u.isPlain = false) :
    (Node.plain t word).tag ≠ u := by
  intro h
  have ht := t.property
  rw [show t.val = u from h, hu] at ht
  cases ht

theorem tag_selectStmt {node : Node} : node.tag = .selectStmt ↔ ∃ s, node = .selectStmt s := by
  constructor
  · intro h
    cases node with
    | selectStmt s => exact ⟨s, rfl⟩
    | plain t word => exact absurd h (tag_plain rfl)
    | value v => cases v <;> cases h
    | _ => cases h
  · rintro ⟨s, rfl⟩
    rfl

/-- The word at the place of `TransactionStmt.kind`.  Where the node's first field is a pointer the
compiler leaves padding there, which the allocator has zeroed. -/
def kindWord : Node → Nat
  | .plain _ word => word
  | .transactionStmt kind _ => kind.toNat
  | .variableSetStmt kind _ _ => kind.toNat
  | .discardStmt target => target.toNat
  | .reindexStmt kind _ => kind
  | _ => 0

end Node

namespace SelectStmt

variable {α : Type}

/-- A SELECT with a target list and nothing else. -/
def ofTargets (targetList : List Node) : SelectStmt Node where
  distinctClause := []
  intoClause := .null
  targetList := targetList
  fromClause := []
  whereClause := .null
  groupClause := []
  havingClause := .null
  windowClause := []
  withClause := .null
  valuesLists := []
  sortClause := []
  limitOffset := .null
  limitCount := .null
  lockingClause := []
  larg := .null
  rarg := .null

/-- The sub-nodes of a `SelectStmt`, in the order `raw_expression_tree_walker` visits them. -/
def parts (s : SelectStmt α) : List α :=
  s.distinctClause ++ [s.intoClause] ++ s.targetList ++ s.fromClause ++ [s.whereClause] ++
    s.groupClause ++ [s.havingClause] ++ s.windowClause ++ [s.withClause] ++ s.valuesLists ++
    s.sortClause ++ [s.limitOffset, s.limitCount] ++ s.lockingClause ++ [s.larg, s.rarg]

end SelectStmt

namespace Node

/-- Every sub-node of a node. -/
def children : Node → List Node
  | .null | .plain _ _ | .value _ | .aConst _ | .variableShowStmt _ | .discardStmt _ | .lockStmt _
  | .indexStmt _ | .reindexStmt _ _ | .deallocateStmt _ => []
  | .list items => items
  | .rangeVar _ aliasClause => [aliasClause]
  | .subLink testexpr subselect => [testexpr, subselect]
  | .caseExpr arg args defresult => arg :: args ++ [defresult]
  | .caseWhen expr result => [expr, result]
  | .rowExpr args | .coalesceExpr args | .minMaxExpr args => args
  | .xmlExpr namedArgs args => namedArgs ++ args
  | .nullTest arg | .booleanTest arg | .namedArgExpr arg => [arg]
  | .joinExpr larg rarg quals aliasClause => [larg, rarg, quals, aliasClause]
  | .intoClause rel => [rel]
  | .aExpr lexpr rexpr => [lexpr, rexpr]
  | .funcCall _ args aggOrder overClause => args ++ aggOrder ++ [overClause]
  | .aIndices lidx uidx => [lidx, uidx]
  | .aIndirection arg indirection => arg :: indirection
  | .aArrayExpr elements => elements
  | .resTarget indirection val => indirection ++ [val]
  | .typeCast arg ty => [arg, ty]
  | .sortBy node => [node]
  | .windowDef partitionClause orderClause startOffset endOffset =>
      partitionClause ++ orderClause ++ [startOffset, endOffset]
  | .rangeSubselect subquery aliasClause => [subquery, aliasClause]
  | .rangeFunction funccallnode aliasClause coldeflist => funccallnode :: aliasClause :: coldeflist
  | .typeName typmods arrayBounds => typmods ++ arrayBounds
  | .columnDef ty rawDefault => [ty, rawDefault]
  | .defElem _ arg => [arg]
  | .lockingClause lockedRels => lockedRels
  | .xmlSerialize expr ty => [expr, ty]
  | .withClause ctes => ctes
  | .commonTableExpr ctequery => [ctequery]
  | .selectStmt s => s.parts
  | .copyStmt relation query _ _ => [relation, query]
  | .explainStmt query options => query :: options
  | .transactionStmt _ options => options
  | .variableSetStmt _ _ args => args
  | .clusterStmt relation => [relation]
  | .prepareStmt _ query => [query]
  | .executeStmt _ into params => into :: params

/-- `raw_expression_tree_walker`: the sub-nodes it hands to its walker.  It knows no
`NamedArgExpr` and no statement but `SelectStmt`, and of a `FuncCall`, a `WindowDef` and a
`RangeFunction` it leaves out the aggregate ordering, the frame bounds and the column
definitions. -/
def rawChildren : Node → List Node
  | .funcCall _ args _ overClause => args ++ [overClause]
  | .windowDef partitionClause orderClause _ _ => partitionClause ++ orderClause
  | .rangeFunction funccallnode aliasClause _ => [funccallnode, aliasClause]
  | .namedArgExpr _ | .defElem _ _ | .copyStmt _ _ _ _ | .explainStmt _ _ | .transactionStmt _ _
  | .variableSetStmt _ _ _ | .clusterStmt _ | .prepareStmt _ _ | .executeStmt _ _ _ => []
  | node => node.children

end Node

end PgPool
