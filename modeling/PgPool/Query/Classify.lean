import PgPool.Config
import PgPool.Lib.CString
import PgPool.Parser.Nodes

/-!
# Classifying a statement

The predicates on parse trees by which queries are routed (`pool_process_query.c`,
`pool_query_context.c`): what may be load balanced, what belongs to the primary, what starts, ends
or characterises a transaction, and what needs an internal transaction.
-/

namespace PgPool

open CString

/-- `is_select_query`: may the statement be load balanced?  The text decides too: it has to start
like a SELECT.  Its callers never pass a `NULL` text. -/
def isSelectQuery (cfg : PoolConfig) (node : Node) (sql : String) : Bool :=
  match node with
  | .selectStmt stmt =>
      if !stmt.intoClause.isNull || !stmt.lockingClause.isEmpty then false
      else
        match (if cfg.ignoreLeadingWhiteSpace then skipSpace sql else sql.toList) with
        | [] => false
        | c :: _ =>
            c == 's' || c == 'S' || c == '(' || c == 'w' || c == 'W' || c == 't' || c == 'T'
  | .copyStmt _ _ isFrom filename => !isFrom && filename.isNone
  | .explainStmt (.selectStmt _) options =>
      options.any fun opt =>
        match opt with
        | .defElem defname _ => defname == "analyze"
        | _ => false
  | _ => false

/-- The name tests of `is_sequence_query` on one component of a function name. -/
def isSequenceName (str : String) : Bool :=
  casePrefix str "NEXTVAL" || casePrefix str "SETVAL"

/-- A target of a select list that calls `nextval` or `setval`. -/
def isSequenceTarget : Node → Bool
  | .resTarget _ (.funcCall funcname _ _ _) => funcname.any isSequenceName
  | _ => false

/-- `is_sequence_query`.  It looks at the top-level select list only. -/
def isSequenceQuery : Node → Bool
  | .selectStmt stmt => stmt.targetList.any isSequenceTarget
  | _ => false

/-- `is_start_transaction_query`. -/
def isStartTransactionQuery : Node → Bool
  | .transactionStmt kind _ => kind == .start || kind == .begin
  | _ => false

/-- `is_commit_query`. -/
def isCommitQuery : Node → Bool
  | .transactionStmt kind _ => kind == .commit || kind == .rollback
  | _ => false

/-- `is_2pc_transaction_query`.  The source casts its argument to `TransactionStmt` without looking
at the tag. -/
def is2pcTransactionQuery (node : Node) : Bool :=
  node.kindWord == TransactionStmtKind.prepare.toNat ||
    node.kindWord == TransactionStmtKind.commitPrepared.toNat ||
    node.kindWord == TransactionStmtKind.rollbackPrepared.toNat

/-- `is_strict_query`. -/
def isStrictQuery : Node → Bool
  | .selectStmt stmt => !stmt.intoClause.isNull || !stmt.lockingClause.isEmpty
  | node => node.tag ∈ ([.updateStmt, .insertStmt, .deleteStmt, .lockStmt] : List NodeTag)

def isStringConst (str : String) : Node → Bool
  | .aConst (.string s) => caseEq s str
  | _ => false

/-- `SET TRANSACTION` and `SET SESSION CHARACTERISTICS AS TRANSACTION`. -/
def isTransactionCharacteristics : Option String → Bool
  | some name => name == "TRANSACTION" || name == "SESSION CHARACTERISTICS"
  | none => false

/-- `is_set_transaction_serializable`. -/
def isSetTransactionSerializable : Node → Bool
  | .variableSetStmt .setValue (some name) args =>
      name == "transaction_isolation" && args.any (isStringConst "serializable")
  | .variableSetStmt .setMulti name args =>
      isTransactionCharacteristics name && args.any fun opt =>
        match opt with
        | .defElem defname arg =>
            (defname == "transaction_isolation" || defname == "default_transaction_isolation") &&
              isStringConst "serializable" arg
        | _ => false
  | _ => false

/-! ## Destination in master/slave mode -/

/-- `POOL_DEST`. -/
inductive PoolDest where
  | primary | standby | either | both
  deriving DecidableEq, Repr

/-- `RowExclusiveLock`. -/
def rowExclusiveLock : Nat := 3

/-- The `nodemap` of `send_to_where`, searched by `bsearch`. -/
def sendToWhereNodemap : List NodeTag :=
  [.plannedStmt, .insertStmt, .deleteStmt, .updateStmt, .selectStmt, .alterTableStmt,
   .alterTableCmd, .alterDomainStmt, .setOperationStmt, .grantStmt, .grantRoleStmt,
   .closePortalStmt, .clusterStmt, .copyStmt, .createStmt, .defineStmt, .dropStmt, .truncateStmt,
   .commentStmt, .fetchStmt, .indexStmt, .createFunctionStmt, .alterFunctionStmt, .removeFuncStmt,
   .renameStmt, .ruleStmt, .notifyStmt, .listenStmt, .unlistenStmt, .transactionStmt, .viewStmt,
   .loadStmt, .createDomainStmt, .createdbStmt, .dropdbStmt, .vacuumStmt, .explainStmt,
   .createSeqStmt, .alterSeqStmt, .variableSetStmt, .variableShowStmt, .discardStmt,
   .createTrigStmt, .dropPropertyStmt, .createPLangStmt, .dropPLangStmt, .createRoleStmt,
   .alterRoleStmt, .dropRoleStmt, .lockStmt, .constraintsSetStmt, .reindexStmt, .checkPointStmt,
   .createSchemaStmt, .alterDatabaseStmt, .alterDatabaseSetStmt, .alterRoleSetStmt,
   .createConversionStmt, .createCastStmt, .dropCastStmt, .createOpClassStmt, .createOpFamilyStmt,
   .alterOpFamilyStmt, .removeOpClassStmt, .removeOpFamilyStmt, .prepareStmt, .executeStmt,
   .deallocateStmt, .declareCursorStmt, .createTableSpaceStmt, .dropTableSpaceStmt,
   .alterObjectSchemaStmt, .alterOwnerStmt, .dropOwnedStmt, .reassignOwnedStmt,
   .compositeTypeStmt, .createEnumStmt, .alterTSDictionaryStmt, .alterTSConfigurationStmt,
   .createFdwStmt, .alterFdwStmt, .dropFdwStmt, .createForeignServerStmt, .alterForeignServerStmt,
   .dropForeignServerStmt, .createUserMappingStmt, .alterUserMappingStmt, .dropUserMappingStmt]

/-- `SET transaction_read_only TO off`, or to an integer other than 0. -/
def setsReadWrite : Node → Bool
  | .aConst (.string s) => caseEq s "off" || caseEq s "f" || caseEq s "false"
  | .aConst (.integer ival) => ival != 0
  | _ => false

/-- `READ WRITE` among the options of a transaction; `bool` is a `char`. -/
def isReadWriteOption : Node → Bool
  | .defElem defname (.aConst (.integer ival)) =>
      defname == "transaction_read_only" && ival % 256 == 0
  | _ => false

/-- The `VariableSetStmt` branch of `send_to_where`. -/
def sendVariableSetToWhere (kind : VariableSetKind) (name : Option String) (args : List Node) :
    PoolDest :=
  if kind = .setValue ∧ name = some "transaction_read_only" then
    if args.any setsReadWrite then .primary else .both
  else if kind = .setMulti ∧ isTransactionCharacteristics name = true then
    if args.any isReadWriteOption then .primary else .both
  else .both

/-- `send_to_where`.  A tag outside the node map and every statement without a branch of its own go
to the primary, and so do all transaction commands, whatever their kind and options. -/
def sendToWhere (node : Node) : PoolDest :=
  if node.tag ∉ sendToWhereNodemap then .primary
  else
    match node with
    | .selectStmt stmt =>
        if !stmt.intoClause.isNull then .primary
        else if !stmt.lockingClause.isEmpty then .primary
        -- sequence functions are not searched for in subqueries
        else if isSequenceQuery (.selectStmt stmt) then .primary
        else .either
    | .copyStmt _ _ isFrom _ => if isFrom then .primary else .either
    | .lockStmt mode => if rowExclusiveLock ≤ mode then .primary else .both
    | .transactionStmt _ _ => .primary
    | .variableSetStmt kind name args => sendVariableSetToWhere kind name args
    | .discardStmt _ => .both
    | .prepareStmt _ query => sendToWhere query
    -- EXECUTE and DEALLOCATE: replaced by the destination of the PREPARE
    | .executeStmt _ _ _ => .primary
    | .deallocateStmt _ => .primary
    | _ => .primary

section

variable (stmt : SelectStmt Node) (kind : VariableSetKind) (name : Option String) (args : List Node)

theorem sendToWhere_selectStmt :
    sendToWhere (.selectStmt stmt) =
      if !stmt.intoClause.isNull then .primary
      else if !stmt.lockingClause.isEmpty then .primary
      else if isSequenceQuery (.selectStmt stmt) then .primary
      else .either := rfl

@[simp] theorem sendToWhere_copyStmt (relation query : Node) (isFrom : Bool)
    (filename : Option String) :
    sendToWhere (.copyStmt relation query isFrom filename) =
      if isFrom = true then .primary else .either := rfl

@[simp] theorem sendToWhere_lockStmt (mode : Nat) :
    sendToWhere (.lockStmt mode) = if rowExclusiveLock ≤ mode then .primary else .both := rfl

@[simp] theorem sendToWhere_variableSetStmt :
    sendToWhere (.variableSetStmt kind name args) = sendVariableSetToWhere kind name args := rfl

@[simp] theorem sendToWhere_discardStmt (target : DiscardMode) :
    sendToWhere (.discardStmt target) = .both := rfl

@[simp] theorem sendToWhere_prepareStmt (stmtName : String) (query : Node) :
    sendToWhere (.prepareStmt stmtName query) = sendToWhere query := rfl

/-- All other statements belong to the primary. -/
theorem sendToWhere_other {node : Node}
    (h : node.tag ∉ ([.selectStmt, .copyStmt, .lockStmt, .variableSetStmt, .discardStmt,
      .prepareStmt] : List NodeTag)) : sendToWhere node = .primary := by
  unfold sendToWhere
  split
  · rfl
  · cases node <;> first | rfl | exact absurd (by simp [Node.tag]) h

end

/-! ## Internal transactions -/

/-- The `nodemap` of `is_internal_transaction_needed`. -/
def internalTransactionNodemap : List NodeTag :=
  [.plannedStmt, .insertStmt, .deleteStmt, .updateStmt, .selectStmt, .alterTableStmt,
   .alterDomainStmt, .grantStmt, .grantRoleStmt, .closePortalStmt, .clusterStmt, .copyStmt,
   .createStmt, .defineStmt, .dropStmt, .truncateStmt, .commentStmt, .fetchStmt, .indexStmt,
   .createFunctionStmt, .alterFunctionStmt, .removeFuncStmt, .renameStmt, .ruleStmt, .notifyStmt,
   .listenStmt, .unlistenStmt, .viewStmt, .loadStmt, .createDomainStmt, .createSeqStmt,
   .alterSeqStmt, .variableSetStmt, .createTrigStmt, .dropPropertyStmt, .createPLangStmt,
   .dropPLangStmt, .createRoleStmt, .alterRoleStmt, .dropRoleStmt, .lockStmt, .constraintsSetStmt,
   .reindexStmt, .createSchemaStmt, .alterDatabaseStmt, .alterDatabaseSetStmt, .alterRoleSetStmt,
   .createConversionStmt, .createCastStmt, .dropCastStmt, .createOpClassStmt, .createOpFamilyStmt,
   .alterOpFamilyStmt, .removeOpClassStmt, .removeOpFamilyStmt, .prepareStmt, .executeStmt,
   .deallocateStmt, .declareCursorStmt, .alterObjectSchemaStmt, .alterOwnerStmt, .dropOwnedStmt,
   .reassignOwnedStmt, .compositeTypeStmt, .createEnumStmt, .alterTSDictionaryStmt,
   .alterTSConfigurationStmt, .createFdwStmt, .alterFdwStmt, .dropFdwStmt,
   .createForeignServerStmt, .alterForeignServerStmt, .dropForeignServerStmt,
   .createUserMappingStmt, .alterUserMappingStmt, .dropUserMappingStmt]

/-- `is_internal_transaction_needed`: all but the statements that cannot run inside a transaction
block. -/
def isInternalTransactionNeeded (node : Node) : Bool :=
  if node.tag ∉ internalTransactionNodemap then false
  else
    match node with
    | .indexStmt concurrent => !concurrent
    | .clusterStmt relation => !relation.isNull
    | .reindexStmt kind doSystem => !(kind == objectDatabase || doSystem)
    | _ => true

end PgPool
