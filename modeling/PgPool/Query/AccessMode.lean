import PgPool.Query.Classify
import Mathlib.Data.List.Infix

/-!
# Statements that make a transaction read-write

The SET and RESET statements of the grammar, what they do to the access mode, and where
`send_to_where` sends them.
-/

namespace PgPool

open CString

/-! ## The statements -/

/-- `var_value`.  The text of a float is a number that is no `Iconst`, or the negation of one. -/
inductive VarValue where
  | string (str : String)
  | integer (ival : Int)
  | float (str : String) (c d : Char) (rest : List Char) (text : str.toList = c :: d :: rest)
      (start : c ∈ "-.0123456789".toList)

/-- `transaction_mode_item`. -/
inductive TransactionMode where
  | isolationLevel (level : String)
  | readOnly
  | readWrite
  deriving DecidableEq, Repr

/-- `VariableSetStmt` and `VariableResetStmt`. -/
inductive SetStmt where
  | value (name : String) (args : List VarValue) (nonempty : args ≠ [])
  /-- `TIME ZONE` with an interval, the only one with a type cast. -/
  | timeZone (str : String) (typeName : Node)
  | setDefault (name : String)
  | fromCurrent (name : String)
  | transaction (modes : List TransactionMode) (nonempty : modes ≠ [])
  | sessionCharacteristics (modes : List TransactionMode) (nonempty : modes ≠ [])
  | reset (name : String)
  | resetAll

/-- `makeAConst` and `makeStringConst`. -/
def VarValue.node : VarValue → Node
  | .string str => .aConst (.string str)
  | .integer ival => .aConst (.integer ival)
  | .float str _ _ _ _ _ => .aConst (.float str)

def TransactionMode.node : TransactionMode → Node
  | .isolationLevel level => .defElem "transaction_isolation" (.aConst (.string level))
  | .readOnly => .defElem "transaction_read_only" (.aConst (.integer 1))
  | .readWrite => .defElem "transaction_read_only" (.aConst (.integer 0))

/-- The parse tree. -/
def SetStmt.node : SetStmt → Node
  | .value name args _ => .variableSetStmt .setValue (some name) (args.map VarValue.node)
  | .timeZone str typeName =>
      .variableSetStmt .setValue (some "timezone") [.typeCast (.aConst (.string str)) typeName]
  | .setDefault name => .variableSetStmt .setDefault (some name) []
  | .fromCurrent name => .variableSetStmt .setCurrent (some name) []
  | .transaction modes _ =>
      .variableSetStmt .setMulti (some "TRANSACTION") (modes.map TransactionMode.node)
  | .sessionCharacteristics modes _ =>
      .variableSetStmt .setMulti (some "SESSION CHARACTERISTICS") (modes.map TransactionMode.node)
  | .reset name => .variableSetStmt .reset (some name) []
  | .resetAll => .variableSetStmt .resetAll none []

/-! ## What they do -/

inductive AccessMode where
  | readOnly
  | readWrite
  deriving DecidableEq, Repr

/-- `parse_bool_with_len`, which is that of PostgreSQL: `strncasecmp` with the length of the value. -/
def parseBoolWithLen (value : String) : Option Bool :=
  match foldCase value with
  | 't' :: _ => if casePrefix "true" value then some true else none
  | 'f' :: _ => if casePrefix "false" value then some false else none
  | 'y' :: _ => if casePrefix "yes" value then some true else none
  | 'n' :: _ => if casePrefix "no" value then some false else none
  -- 'o' is not unique enough
  | ['o'] => none
  | 'o' :: _ :: _ =>
      if casePrefix "on" value then some true else if casePrefix "off" value then some false else none
  | ['1'] => some true
  | ['0'] => some false
  | _ => none

/-- The value of a boolean setting. -/
def VarValue.bool : VarValue → Option Bool
  | .string str => parseBoolWithLen str
  | .integer ival => if ival = 0 then some false else if ival = 1 then some true else none
  | .float str _ _ _ _ _ => parseBoolWithLen str

def AccessMode.ofReadOnly (readOnly : Bool) : AccessMode := if readOnly then .readOnly else .readWrite

def TransactionMode.access : TransactionMode → Option AccessMode
  | .isolationLevel _ => none
  | .readOnly => some .readOnly
  | .readWrite => some .readWrite

/-- The settings for the transaction and for the session. -/
def isReadOnlySetting (name : String) : Bool :=
  caseEq name "transaction_read_only" || caseEq name "default_transaction_read_only"

/-- The access mode that a statement sets.  A setting takes one value; of several modes the last counts. -/
def SetStmt.access : SetStmt → Option AccessMode
  | .value name [v] _ => if isReadOnlySetting name then v.bool.map .ofReadOnly else none
  | .transaction modes _ | .sessionCharacteristics modes _ => modes.reverse.findSome? TransactionMode.access
  | _ => none

/-- The primary alone for what makes the transaction, or the session, read-write. -/
def SetStmt.destination (s : SetStmt) : PoolDest := if s.access = some .readWrite then .primary else .both

/-! ## What is recognised -/

/-- The spellings of false that are compared with. -/
def comparedTexts : List (List Char) := ["off".toList, "f".toList, "false".toList]

/-- The other spellings. -/
def otherTexts : List (List Char) :=
  ["fa".toList, "fal".toList, "fals".toList, "n".toList, "no".toList, "of".toList, "0".toList]

def VarValue.IsFalse : VarValue → Prop
  | .string str => foldCase str ∈ comparedTexts ++ otherTexts
  | .integer ival => ival = 0
  | .float _ _ _ _ _ _ => False

/-- The values of `transaction_read_only`, under this very name, that are told right: one that is no integer
and none of the other spellings; or several, of which none looks like off. -/
def ValuesRecognised : List VarValue → Prop
  | [.string str] => foldCase str ∉ otherTexts
  | [.integer _] => False
  | [.float _ _ _ _ _ _] => True
  | args => ∀ v ∈ args, setsReadWrite v.node = false

/-- A READ ONLY behind a READ WRITE is taken back by another READ WRITE. -/
def ModesRecognised (modes : List TransactionMode) : Prop :=
  ∀ before behind, modes = before ++ .readOnly :: behind → .readWrite ∈ before → .readWrite ∈ behind

/-- The statements that `send_to_where` tells right. -/
def SetStmt.Recognised : SetStmt → Prop
  | .value name args _ =>
      if name = "transaction_read_only" then ValuesRecognised args
      else isReadOnlySetting name = true → ∀ v, args = [v] → ¬ v.IsFalse
  | .transaction modes _ | .sessionCharacteristics modes _ => ModesRecognised modes
  | _ => True

/-! ## Boolean values -/

theorem casePrefix_iff {s t : String} : casePrefix t s = true ↔ foldCase s ∈ (foldCase t).inits := by
  rw [casePrefix, List.isPrefixOf_iff_prefix, List.mem_inits]

theorem parseBoolWithLen_false_iff (s : String) :
    parseBoolWithLen s = some false ↔ foldCase s ∈ comparedTexts ++ otherTexts := by
  have hfalse : (foldCase "false").inits = ["", "f", "fa", "fal", "fals", "false"].map String.toList := by
    decide
  have hno : (foldCase "no").inits = ["", "n", "no"].map String.toList := by decide
  have hon : (foldCase "on").inits = ["", "o", "on"].map String.toList := by decide
  have hoff : (foldCase "off").inits = ["", "o", "of", "off"].map String.toList := by decide
  unfold parseBoolWithLen
  split <;> rename_i heq <;> simp_all [casePrefix_iff, comparedTexts, otherTexts]
  -- left are the prefixes of "false", "no" and "off"
  · tauto
  · tauto
  · split
    · simp_all
    · simp_all
      tauto

theorem VarValue.bool_false_iff (v : VarValue) : v.bool = some false ↔ v.IsFalse := by
  cases v with
  | string str => exact parseBoolWithLen_false_iff str
  | integer ival =>
    unfold VarValue.bool VarValue.IsFalse
    by_cases hzero : ival = 0
    · simp [hzero]
    · by_cases hone : ival = 1 <;> simp [hzero, hone]
  | float str c d rest text start =>
    refine ⟨fun h => ?_, False.elim⟩
    have hmem := (parseBoolWithLen_false_iff str).mp h
    -- a number does not start like one of the words, and "0" has no second character
    have hstart : ("-.0123456789".toList.all fun c => !(['o', 'f', 'n'].contains c.toLower)) = true := by
      decide
    have hwords : ((comparedTexts ++ otherTexts).all fun l =>
        l.length == 1 || ['o', 'f', 'n'].any fun c => l.head? == some c) = true := by
      decide
    have hfold : foldCase str = c.toLower :: d.toLower :: rest.map Char.toLower := by
      rw [foldCase, text]
      rfl
    rw [hfold] at hmem
    have hword := List.all_eq_true.mp hwords _ hmem
    have hfirst := List.all_eq_true.mp hstart c start
    simp only [Bool.or_eq_true, beq_iff_eq, List.any_eq_true] at hword
    simp only [Bool.not_eq_true', List.contains_eq_mem, decide_eq_false_iff_not] at hfirst
    obtain hlen | ⟨c', hc', hhead⟩ := hword
    · cases hlen
    · cases hhead
      exact hfirst hc'

theorem VarValue.ofReadOnly_iff (v : VarValue) :
    v.bool.map AccessMode.ofReadOnly = some .readWrite ↔ v.IsFalse := by
  rw [← v.bool_false_iff]
  cases v.bool with
  | none => simp
  | some b => cases b <;> simp [AccessMode.ofReadOnly]

theorem setsReadWrite_string {str : String} :
    setsReadWrite (.aConst (.string str)) = true ↔ foldCase str ∈ comparedTexts := by
  have heq : ∀ t, caseEq str t = true ↔ foldCase str = foldCase t := fun t => beq_iff_eq
  have htexts : comparedTexts = [foldCase "off", foldCase "f", foldCase "false"] := by decide
  simp only [setsReadWrite, Bool.or_eq_true, heq, htexts, List.mem_cons, List.not_mem_nil, or_false,
    or_assoc]

/-! ## Where they are sent -/

theorem destination_eq_iff {p q : Prop} [Decidable p] [Decidable q] :
    (if p then PoolDest.primary else .both) = (if q then .primary else .both) ↔ (p ↔ q) := by
  by_cases hp : p <;> by_cases hq : q <;> simp [hp, hq]

/-- One value of `transaction_read_only`. -/
theorem value_recognised_iff (v : VarValue) :
    (setsReadWrite v.node = true ↔ v.IsFalse) ↔ ValuesRecognised [v] := by
  cases v with
  | string str =>
    have hapart : ∀ l ∈ otherTexts, l ∉ comparedTexts := by decide
    change (setsReadWrite (.aConst (.string str)) = true ↔ foldCase str ∈ comparedTexts ++ otherTexts) ↔
      foldCase str ∉ otherTexts
    rw [setsReadWrite_string, List.mem_append]
    exact ⟨fun h hother => hapart _ hother (h.mpr (.inr hother)),
      fun h => ⟨.inl, fun hmem => hmem.resolve_right h⟩⟩
  | integer ival =>
    unfold VarValue.node VarValue.IsFalse ValuesRecognised setsReadWrite
    by_cases hzero : ival = 0 <;> simp [hzero]
  | float str c d rest text start =>
    unfold VarValue.node VarValue.IsFalse ValuesRecognised setsReadWrite
    simp

theorem sendToWhere_value {name : String} {args : List VarValue} (hne : args ≠ []) :
    sendToWhere (SetStmt.value name args hne).node = (SetStmt.value name args hne).destination ↔
      (SetStmt.value name args hne).Recognised := by
  have hsend : sendToWhere (SetStmt.value name args hne).node =
      if name = "transaction_read_only" ∧ (args.map VarValue.node).any setsReadWrite = true then .primary
      else .both := by
    unfold SetStmt.node
    rw [sendToWhere_variableSetStmt, sendVariableSetToWhere]
    by_cases hname : name = "transaction_read_only" <;> simp [hname]
  rw [hsend, SetStmt.destination, destination_eq_iff, SetStmt.Recognised]
  match args, hne with
  | [v], hne =>
    have haccess : (SetStmt.value name [v] hne).access = some .readWrite ↔
        isReadOnlySetting name = true ∧ v.IsFalse := by
      unfold SetStmt.access
      by_cases hsetting : isReadOnlySetting name = true <;> simp [hsetting, v.ofReadOnly_iff]
    rw [haccess]
    by_cases hname : name = "transaction_read_only"
    · have hsetting : isReadOnlySetting name = true := by
        rw [hname]
        decide
      rw [if_pos hname, ← value_recognised_iff, and_iff_right hsetting, and_iff_right hname]
      simp
    · simp [hname]
  | v :: w :: args, hne =>
    have haccess : (SetStmt.value name (v :: w :: args) hne).access = none := rfl
    rw [haccess]
    by_cases hname : name = "transaction_read_only"
    · simp [hname, ValuesRecognised]
    · simp [hname]

/-! ## Lists of modes -/

theorem isReadWriteOption_node (mode : TransactionMode) :
    isReadWriteOption mode.node = true ↔ mode = .readWrite := by
  cases mode <;> simp [isReadWriteOption, TransactionMode.node]

theorem access_eq_some {mode : TransactionMode} {a : AccessMode} :
    mode.access = some a ↔ mode = match a with | .readOnly => .readOnly | .readWrite => .readWrite := by
  cases mode <;> cases a <;> simp [TransactionMode.access]

/-- The last of the access modes. -/
theorem lastAccess_iff {modes : List TransactionMode} {a : AccessMode} :
    modes.reverse.findSome? TransactionMode.access = some a ↔
      ∃ before mode behind, modes = before ++ mode :: behind ∧ mode.access = some a ∧
        ∀ m ∈ behind, m.access = none := by
  rw [List.findSome?_eq_some_iff]
  constructor
  · rintro ⟨l, mode, l', heq, hmode, hnone⟩
    refine ⟨l'.reverse, mode, l.reverse, ?_, hmode, fun m hm => hnone m (List.mem_reverse.mp hm)⟩
    rw [← List.reverse_reverse modes, heq]
    simp
  · rintro ⟨before, mode, behind, rfl, hmode, hnone⟩
    exact ⟨behind.reverse, mode, before.reverse, by simp, hmode,
      fun m hm => hnone m (List.mem_reverse.mp hm)⟩

theorem mem_of_lastAccess {modes : List TransactionMode}
    (h : modes.reverse.findSome? TransactionMode.access = some .readWrite) : .readWrite ∈ modes := by
  obtain ⟨before, mode, behind, rfl, hmode, -⟩ := lastAccess_iff.mp h
  rw [access_eq_some] at hmode
  rw [hmode]
  exact List.mem_append_right _ List.mem_cons_self

/-- A READ WRITE anywhere is what counts, unless a READ ONLY takes it back. -/
theorem modes_recognised_iff (modes : List TransactionMode) :
    (.readWrite ∈ modes ↔ modes.reverse.findSome? TransactionMode.access = some .readWrite) ↔
      ModesRecognised modes := by
  constructor
  · intro h before behind heq hmem
    obtain ⟨before', mode, behind', heq', hmode, hnone⟩ :=
      lastAccess_iff.mp (h.mp (heq ▸ List.mem_append_left _ hmem))
    rw [access_eq_some] at hmode
    subst hmode
    rw [heq, List.append_eq_append_iff] at heq'
    -- the last READ WRITE stands behind this READ ONLY, which would be the last otherwise
    obtain ⟨l, -, hl⟩ | ⟨l, -, hl⟩ := heq'
    · cases l with
      | nil => cases hl
      | cons m l =>
        obtain ⟨-, hbehind⟩ := List.cons_eq_cons.mp hl
        rw [hbehind]
        exact List.mem_append_right _ List.mem_cons_self
    · cases l with
      | nil => cases hl
      | cons m l =>
        obtain ⟨-, hbehind⟩ := List.cons_eq_cons.mp hl
        have hlast := hnone .readOnly (hbehind ▸ List.mem_append_right _ List.mem_cons_self)
        cases hlast
  · refine fun h => ⟨fun hmem => ?_, mem_of_lastAccess⟩
    have hsome : (modes.reverse.findSome? TransactionMode.access).isSome :=
      List.findSome?_isSome_iff.mpr ⟨.readWrite, List.mem_reverse.mpr hmem, rfl⟩
    obtain ⟨a, ha⟩ := Option.isSome_iff_exists.mp hsome
    cases a with
    | readWrite => exact ha
    | readOnly =>
      obtain ⟨before, mode, behind, rfl, hmode, hnone⟩ := lastAccess_iff.mp ha
      rw [access_eq_some] at hmode
      subst hmode
      have hbehind : .readWrite ∉ behind := fun hmem => nomatch hnone _ hmem
      have hbefore : .readWrite ∈ before := by simpa [hbehind] using hmem
      exact absurd (h before behind rfl hbefore) hbehind

theorem sendToWhere_modes {modes : List TransactionMode} {name : String}
    (hname : isTransactionCharacteristics (some name) = true) :
    sendToWhere (.variableSetStmt .setMulti (some name) (modes.map TransactionMode.node)) =
        (if modes.reverse.findSome? TransactionMode.access = some .readWrite then .primary else .both) ↔
      ModesRecognised modes := by
  have hany : (modes.map TransactionMode.node).any isReadWriteOption = true ↔ .readWrite ∈ modes := by
    simp [List.any_map, isReadWriteOption_node]
  have hkind : ¬ (VariableSetKind.setMulti = .setValue ∧ some name = some "transaction_read_only") := nofun
  rw [sendToWhere_variableSetStmt, sendVariableSetToWhere, if_neg hkind, if_pos ⟨rfl, hname⟩,
    destination_eq_iff, hany, modes_recognised_iff]

namespace SetStmt

/-- **Read-write transactions**: which statements that set the access mode are sent where they belong. -/
theorem sendToWhere_eq_destination_iff (s : SetStmt) :
    sendToWhere s.node = s.destination ↔ s.Recognised := by
  cases s with
  | value name args hne => exact sendToWhere_value hne
  | transaction modes hne => exact sendToWhere_modes rfl
  | sessionCharacteristics modes hne => exact sendToWhere_modes rfl
  | timeZone str typeName => exact iff_of_true rfl trivial
  | setDefault name => exact iff_of_true rfl trivial
  | fromCurrent name => exact iff_of_true rfl trivial
  | reset name => exact iff_of_true rfl trivial
  | resetAll => exact iff_of_true rfl trivial

/-- `SET transaction_read_only TO 0` goes to the standbys too. -/
theorem sendToWhere_zero :
    let s := SetStmt.value "transaction_read_only" [.integer 0] (List.cons_ne_nil _ _)
    s.access = some .readWrite ∧ sendToWhere s.node = .both := by
  decide

end SetStmt

end PgPool
