import Mathlib.Data.List.Basic

/-!
# Distribution rules

The rules of the system database that say by which column a table is distributed over the nodes, and
`pool_get_id`, which asks the system database for the node of a value.
-/

namespace PgPool.Parallel

/-- `DistDefInfo`, the columns in the order of the table. -/
structure DistDefInfo where
  dbname : String
  schemaName : String
  tableName : String
  distKeyColName : String
  distKeyColId : Nat
  colList : List String
  deriving DecidableEq

/-- The system database, the nodes, and which of them can be used.  `execPrepared` is the function of a
rule: its result for a text, as the number that `atoi` makes of it, or nothing if it fails or is
null. -/
structure SystemDb where
  numBackends : Nat
  rules : List DistDefInfo
  execPrepared : DistDefInfo → List Char → Option Int
  validBackend : Nat → Bool

namespace SystemDb

variable (db : SystemDb)

/-- The comparison of `pool_get_dist_def_info`. -/
def isFor (dbname schemaName tableName : String) (info : DistDefInfo) : Bool :=
  info.dbname = dbname ∧ info.schemaName = schemaName ∧ info.tableName = tableName

/-- `pool_get_dist_def_info`. -/
def poolGetDistDefInfo (dbname : String) (schemaName tableName : Option String) :
    Option DistDefInfo :=
  match tableName with
  | none => none
  | some tableName => db.rules.find? (isFor dbname (schemaName.getD "public") tableName)

/-- `pool_get_id`. -/
def poolGetId (info : DistDefInfo) (value : List Char) : Int :=
  match db.execPrepared info value with
  | none => -1
  | some num => if num < db.numBackends then num else -1

/-- The node that a number stands for, if it is one that can be used. -/
def nodeOf (id : Int) : Option Nat :=
  if 0 ≤ id ∧ db.validBackend id.toNat = true then some id.toNat else none

/-- There is one rule for a table. -/
def Unique : Prop :=
  ∀ r ∈ db.rules, ∀ r' ∈ db.rules, r.dbname = r'.dbname → r.schemaName = r'.schemaName →
    r.tableName = r'.tableName → r = r'

/-- The key of a rule is the column that it names. -/
def KeyNamed : Prop :=
  ∀ r ∈ db.rules, r.colList.Nodup ∧ r.colList[r.distKeyColId]? = some r.distKeyColName

/-- Well-formed rules: the function of a rule yields the number of a node for every value. -/
structure WellFormed : Prop where
  unique : db.Unique
  key : db.KeyNamed
  node : ∀ r ∈ db.rules, ∀ v id, db.execPrepared r v = some id → 0 ≤ id ∧ id < db.numBackends

variable {db : SystemDb} {info : DistDefInfo}

theorem poolGetDistDefInfo_eq (hunique : db.Unique) (hmem : info ∈ db.rules) {schema : Option String}
    (hschema : schema.getD "public" = info.schemaName) :
    db.poolGetDistDefInfo info.dbname schema (some info.tableName) = some info := by
  unfold poolGetDistDefInfo
  rw [hschema]
  have hfor : isFor info.dbname info.schemaName info.tableName info = true :=
    decide_eq_true ⟨rfl, rfl, rfl⟩
  cases hfind : db.rules.find? (isFor info.dbname info.schemaName info.tableName) with
  | none => exact absurd hfor (by simpa using List.find?_eq_none.mp hfind info hmem)
  | some r =>
    have hfound : isFor info.dbname info.schemaName info.tableName r = true := List.find?_some hfind
    have hr := of_decide_eq_true hfound
    show db.rules.find? _ = _
    rw [hfind, hunique r (List.mem_of_find?_eq_some hfind) info hmem hr.1 hr.2.1 hr.2.2]

/-- A value that has a node has its number. -/
theorem poolGetId_eq {v : List Char} {id : Int} (hexec : db.execPrepared info v = some id)
    (hlt : id < db.numBackends) : db.poolGetId info v = id := by
  unfold poolGetId
  rw [hexec]
  exact if_pos hlt

theorem poolGetId_none {v : List Char} (hexec : db.execPrepared info v = none) :
    db.poolGetId info v = -1 := by
  unfold poolGetId
  rw [hexec]

theorem nodeOf_eq_some {id : Int} {i : Nat} (h : db.nodeOf id = some i) :
    id = i ∧ db.validBackend i = true := by
  unfold nodeOf at h
  by_cases hok : 0 ≤ id ∧ db.validBackend id.toNat = true
  · rw [if_pos hok] at h
    obtain rfl := Option.some.inj h
    exact ⟨(Int.toNat_of_nonneg hok.1).symm, hok.2⟩
  · rw [if_neg hok] at h
    cases h

end SystemDb

/-! ## Two nodes -/

/-- A table distributed by its only column over two nodes: `a` is on the first, the rest on the second. -/
def letters : DistDefInfo where
  dbname := "d"
  schemaName := "public"
  tableName := "t"
  distKeyColName := "c"
  distKeyColId := 0
  colList := ["c"]

def twoNodes : SystemDb where
  numBackends := 2
  rules := [letters]
  execPrepared _ value := if value = ['a'] then some 0 else some 1
  validBackend _ := true

theorem wellFormed_twoNodes : twoNodes.WellFormed where
  unique r hr r' hr' _ _ _ := by
    rw [List.mem_singleton.mp hr, List.mem_singleton.mp hr']
  key r hr := by
    rw [List.mem_singleton.mp hr]
    decide
  node r _ v id h := by
    by_cases hv : v = ['a']
    · obtain rfl := Option.some.inj ((if_pos hv).symm.trans h)
      decide
    · obtain rfl := Option.some.inj ((if_neg hv).symm.trans h)
      decide

end PgPool.Parallel
